import Yloc.HopDistance
import Yloc.VertexTypes

/-!
`example.cc`: the processing units next to the first accelerator.

`findDistances` is the function of the example, with what it writes as its result. It takes
the first vertex of the view of the PUs without a test, which is the end of the range when
there is none.

* `findDistances_cases`: when it writes what, and when it accesses a vector out of range.
* `findDistances_nearest_iff`: the PUs written are the nearest ones exactly if all PUs can
  be reached. A PU that cannot be reached has distance zero, so that otherwise the PUs
  written are those that cannot be reached.
* `findDistances_init`: after `init`, all PUs can be reached exactly if the accelerator is
  connected with the machine of hwloc.
-/

namespace Yloc

variable {n : ℕ}

/-- What `find_distances` writes about the first accelerator. -/
structure NearestPus where
  /-- `*vi` -/
  accelerator : VertexT
  /-- `g[*vi].to_string()` -/
  text : String
  /-- "number of PUs" -/
  numPus : ℕ
  /-- "minimum distance" -/
  mindist : ℤ
  /-- "#hops": the PUs and their distances. -/
  hops : List (VertexT × ℤ)
  deriving DecidableEq, Repr

/-- What `find_distances` writes. -/
structure FoundDistances where
  /-- "number of found accelerators" -/
  numAccelerators : ℕ
  nearest : Option NearestPus
  deriving DecidableEq, Repr

/-- `*boost::vertices(view).first`. The end of a range has the number of vertices for its
descriptor. -/
def GraphView.first (view : GraphView) : VertexT := view.vertexRange.headD view.numVertices

/-- The loop for the minimum distance. -/
def minDistance (distances : List ℤ) (vertices : List VertexT) (mindist : ℤ) : ℤ :=
  vertices.foldl (fun mindist vd =>
    if distances.getD vd 0 < mindist then distances.getD vd 0 else mindist) mindist

/-- `find_distances`. -/
def findDistances (g : Graph n) : Except Abort FoundDistances :=
  let fgvAccelerator := g.typeView .accelerator
  let numVertices := fgvAccelerator.numVerticesView
  if numVertices < 1 then .ok ⟨numVertices, none⟩
  else
    let vi := fgvAccelerator.first
    let fgvPu := g.typeView .logicalCore
    let distances := bfsDistances g vi
    match distances[fgvPu.first]? with
    | none => .error .outOfRange
    | some mindist =>
        let mindist := minDistance distances fgvPu.vertexRange mindist
        let fgvPuMin := fgvPu.filter keepAll fun v => !decide (distances.getD v 0 > mindist)
        .ok ⟨numVertices, some
          { accelerator := vi
            text := (g.vertex vi).toString
            numPus := fgvPu.numVerticesView
            mindist := mindist
            hops := fgvPuMin.vertexRange.map fun vd => (vd, distances.getD vd 0) }⟩

/-- The vertex is a PU and no PU is nearer to `u`. -/
def Graph.IsNearestPu (g : Graph n) (u v : VertexT) : Prop :=
  v ∈ (g.typeView .logicalCore).vertexRange ∧ ∃ p, g.Path u p v ∧
    ∀ w ∈ (g.typeView .logicalCore).vertexRange, ∀ q, g.Path u q w → p.length ≤ q.length

/-! ### The minimum -/

/-- The loop finds a lower bound of the distances. -/
lemma minDistance_le (distances : List ℤ) (vertices : List VertexT) (mindist : ℤ) :
    minDistance distances vertices mindist ≤ mindist ∧
      ∀ v ∈ vertices, minDistance distances vertices mindist ≤ distances.getD v 0 := by
  induction vertices generalizing mindist with
  | nil => exact ⟨le_rfl, by simp⟩
  | cons vd vertices ih =>
      let next := if distances.getD vd 0 < mindist then distances.getD vd 0 else mindist
      have hnext : next ≤ mindist ∧ next ≤ distances.getD vd 0 := by
        simp only [next]
        split <;> constructor <;> omega
      obtain ⟨hle, hmem⟩ := ih next
      refine ⟨hle.trans hnext.1, fun v hv => ?_⟩
      rcases List.mem_cons.mp hv with rfl | hv
      · exact hle.trans hnext.2
      · exact hmem v hv

/-- The lower bound is attained. -/
lemma minDistance_mem (distances : List ℤ) (vertices : List VertexT) (mindist : ℤ) :
    minDistance distances vertices mindist = mindist ∨
      ∃ v ∈ vertices, minDistance distances vertices mindist = distances.getD v 0 := by
  induction vertices generalizing mindist with
  | nil => exact .inl rfl
  | cons vd vertices ih =>
      by_cases hlt : distances.getD vd 0 < mindist
      · rw [minDistance, List.foldl_cons, if_pos hlt]
        rcases ih (distances.getD vd 0) with h | ⟨v, hv, h⟩
        · exact .inr ⟨vd, List.mem_cons_self, h⟩
        · exact .inr ⟨v, List.mem_cons_of_mem _ hv, h⟩
      · rw [minDistance, List.foldl_cons, if_neg hlt]
        rcases ih mindist with h | ⟨v, hv, h⟩
        · exact .inl h
        · exact .inr ⟨v, List.mem_cons_of_mem _ hv, h⟩

/-! ### What the function writes -/

section

variable {g : Graph n}

lemma bfsDistances_length (g : Graph n) (u : VertexT) :
    (bfsDistances g u).length = g.numVertices := by
  rw [bfsDistances, bfsDistanceVector, List.length_map, List.length_range]

/-- The first vertex of a view that is not empty. -/
lemma GraphView.first_mem {view : GraphView} (h : view.vertexRange ≠ []) :
    view.first ∈ view.vertexRange := by
  obtain ⟨v, vs, hrange⟩ := List.exists_cons_of_ne_nil h
  rw [first, hrange, List.headD_cons]
  exact List.mem_cons_self

/-- What the loop and the second filter leave of the PUs: those of least distance. -/
structure NearestPus.Spec (g : Graph n) (nearest : NearestPus) : Prop where
  accelerator : nearest.accelerator = (g.typeView .accelerator).first
  mem : nearest.accelerator ∈ (g.typeView .accelerator).vertexRange
  text : nearest.text = (g.vertex nearest.accelerator).toString
  numPus : nearest.numPus = (g.typeView .logicalCore).vertexRange.length
  le : ∀ v ∈ (g.typeView .logicalCore).vertexRange,
    nearest.mindist ≤ (bfsDistances g nearest.accelerator).getD v 0
  attained : ∃ v ∈ (g.typeView .logicalCore).vertexRange,
    nearest.mindist = (bfsDistances g nearest.accelerator).getD v 0
  hops : nearest.hops = ((g.typeView .logicalCore).vertexRange.filter fun v =>
    (bfsDistances g nearest.accelerator).getD v 0 == nearest.mindist).map fun v =>
      (v, nearest.mindist)

/-- **When `find_distances` writes what**: nothing more without an accelerator; with an
accelerator but no PU it reads past the end of the vector of distances. -/
theorem findDistances_cases (g : Graph n) :
    ((g.typeView .accelerator).vertexRange = [] ∧ findDistances g = .ok ⟨0, none⟩) ∨
    ((g.typeView .accelerator).vertexRange ≠ [] ∧ (g.typeView .logicalCore).vertexRange = [] ∧
      findDistances g = .error .outOfRange) ∨
    ∃ nearest, findDistances g =
        .ok ⟨(g.typeView .accelerator).vertexRange.length, some nearest⟩ ∧
      NearestPus.Spec g nearest := by
  by_cases hacc : (g.typeView .accelerator).vertexRange = []
  · refine .inl ⟨hacc, ?_⟩
    rw [findDistances]
    simp [hacc]
  · right
    have hnum : ¬ (g.typeView .accelerator).numVerticesView < 1 := by
      rw [GraphView.numVerticesView_eq, Nat.lt_one_iff, List.length_eq_zero_iff]
      exact hacc
    let vi := (g.typeView .accelerator).first
    by_cases hpu : (g.typeView .logicalCore).vertexRange = []
    · refine .inl ⟨hacc, hpu, ?_⟩
      have hend : (bfsDistances g vi)[(g.typeView .logicalCore).first]? = none := by
        rw [GraphView.first, hpu, List.headD_nil, List.getElem?_eq_none_iff, bfsDistances_length]
        exact le_rfl
      rw [findDistances, if_neg hnum]
      simp only [hend, vi]
    · right
      let pus := (g.typeView .logicalCore).vertexRange
      let distances := bfsDistances g vi
      have hmem := GraphView.first_mem hpu
      have hlt := (Graph.mem_typeView.mp hmem).1
      have hfirst : distances[(g.typeView .logicalCore).first]? =
          some (distances.getD (g.typeView .logicalCore).first 0) := by
        rw [List.getD_eq_getElem?_getD, List.getElem?_eq_getElem (by rwa [bfsDistances_length]),
          Option.getD_some]
      let mindist := minDistance distances pus (distances.getD (g.typeView .logicalCore).first 0)
      have hle : ∀ v ∈ pus, mindist ≤ distances.getD v 0 := (minDistance_le _ _ _).2
      -- the second filter keeps the PUs of least distance
      have hhops : (((g.typeView .logicalCore).filter keepAll fun v =>
            !decide (distances.getD v 0 > mindist)).vertexRange.map fun vd =>
              (vd, distances.getD vd 0)) =
          (pus.filter fun v => distances.getD v 0 == mindist).map fun v => (v, mindist) := by
        have hkept : ∀ v ∈ pus, (!decide (distances.getD v 0 > mindist)) =
            (distances.getD v 0 == mindist) := by
          intro v hv
          have := hle v hv
          rw [Bool.eq_iff_iff, Bool.not_eq_true', decide_eq_false_iff_not, beq_iff_eq]
          constructor <;> intro h <;> omega
        change (pus.filter _).map _ = _
        rw [List.filter_congr hkept]
        refine List.map_congr_left fun v hv => ?_
        rw [beq_iff_eq.mp (List.mem_filter.mp hv).2]
      refine ⟨⟨vi, (g.vertex vi).toString, pus.length, mindist,
          (pus.filter fun v => distances.getD v 0 == mindist).map fun v => (v, mindist)⟩, ?_,
        ⟨rfl, GraphView.first_mem hacc, rfl, rfl, hle, ?_, rfl⟩⟩
      · rw [findDistances, if_neg hnum]
        simp only [hfirst, GraphView.numVerticesView_eq, vi, distances] at hhops ⊢
        rw [← hhops]
      · rcases minDistance_mem distances pus _ with h | h
        · exact ⟨_, hmem, h⟩
        · exact h

/-! ### The PUs that are nearest -/

/-- No component is an accelerator and a PU. -/
lemma Component.not_logicalCore_of_accelerator :
    ∀ c : Component, c.isA .accelerator = true → c.isA .logicalCore = false := by
  intro c
  cases c <;> decide

/-- The distances of PUs: the length of a shortest path, or zero. -/
lemma NearestPus.Spec.distance {nearest : NearestPus} (h : NearestPus.Spec g nearest)
    (hends : ∀ e ∈ g.edges, e.target < g.numVertices) {v : VertexT}
    (hv : v ∈ (g.typeView .logicalCore).vertexRange) :
    (∃ p, g.ShortestPath nearest.accelerator p v ∧ 0 < p.length ∧
      (bfsDistances g nearest.accelerator).getD v 0 = p.length) ∨
    (∀ p, ¬ g.Path nearest.accelerator p v) ∧
      (bfsDistances g nearest.accelerator).getD v 0 = 0 := by
  obtain ⟨hlt, htype⟩ := Graph.mem_typeView.mp hv
  obtain ⟨hacc, hacctype⟩ := Graph.mem_typeView.mp h.mem
  rw [List.getD_eq_getElem?_getD]
  rcases bfsDistances_spec hends hacc hlt with ⟨p, hp, hdist⟩ | ⟨hnone, hdist⟩
  · refine .inl ⟨p, hp, List.length_pos_iff.mpr ?_, by rw [hdist, Option.getD_some]⟩
    rintro rfl
    -- the accelerator would be a PU
    obtain rfl : nearest.accelerator = v := (hp.1.end_unique .nil).symm
    rw [Component.not_logicalCore_of_accelerator _ hacctype] at htype
    cases htype
  · exact .inr ⟨hnone, by rw [hdist, Option.getD_some]⟩

lemma NearestPus.Spec.mem_hops {nearest : NearestPus} (h : NearestPus.Spec g nearest)
    {v : VertexT} : v ∈ nearest.hops.map Prod.fst ↔
      v ∈ (g.typeView .logicalCore).vertexRange ∧
        (bfsDistances g nearest.accelerator).getD v 0 = nearest.mindist := by
  rw [h.hops, List.map_map]
  simp [Function.comp_def]

/-- With a PU that is not connected, the PUs that are not connected are written. -/
lemma NearestPus.Spec.mem_hops_of_unreachable {nearest : NearestPus}
    (h : NearestPus.Spec g nearest) (hends : ∀ e ∈ g.edges, e.target < g.numVertices)
    {w : VertexT} (hw : w ∈ (g.typeView .logicalCore).vertexRange)
    (hnone : ∀ p, ¬ g.Path nearest.accelerator p w) :
    nearest.mindist = 0 ∧ ∀ v, v ∈ nearest.hops.map Prod.fst ↔
      v ∈ (g.typeView .logicalCore).vertexRange ∧ ∀ p, ¬ g.Path nearest.accelerator p v := by
  have hmin : nearest.mindist = 0 := by
    refine le_antisymm ?_ ?_
    · have hle := h.le w hw
      rcases h.distance hends hw with ⟨p, hp, -, -⟩ | ⟨-, hzero⟩
      · exact absurd hp.1 (hnone p)
      · rwa [hzero] at hle
    · obtain ⟨v, hv, hattained⟩ := h.attained
      rcases h.distance hends hv with ⟨p, -, -, hdist⟩ | ⟨-, hzero⟩
      · rw [hattained, hdist]
        positivity
      · rw [hattained, hzero]
  refine ⟨hmin, fun v => ?_⟩
  rw [h.mem_hops, hmin]
  refine and_congr_right fun hv => ?_
  rcases h.distance hends hv with ⟨p, hp, hpos, hdist⟩ | ⟨hnone', hzero⟩
  · rw [hdist]
    exact iff_of_false (by omega) fun hnone' => hnone' p hp.1
  · exact iff_of_true hzero hnone'

/-- The PUs of least distance are the nearest ones if all PUs are connected. -/
lemma NearestPus.Spec.nearest_iff {nearest : NearestPus} (h : NearestPus.Spec g nearest)
    (hends : ∀ e ∈ g.edges, e.target < g.numVertices) :
    (∀ v, v ∈ nearest.hops.map Prod.fst ↔ g.IsNearestPu nearest.accelerator v) ↔
      ∀ v ∈ (g.typeView .logicalCore).vertexRange, ∃ p, g.Path nearest.accelerator p v := by
  refine ⟨fun hnearest v hv => ?_, fun hreach v => ?_⟩
  · by_contra hnone
    rw [not_exists] at hnone
    have hhops := (h.mem_hops_of_unreachable hends hv hnone).2 v
    obtain ⟨-, p, hp, -⟩ := (hnearest v).mp (hhops.mpr ⟨hv, hnone⟩)
    exact hnone p hp
  · rw [h.mem_hops]
    -- all distances are lengths of shortest paths
    have hdist : ∀ w ∈ (g.typeView .logicalCore).vertexRange,
        ∃ p, g.ShortestPath nearest.accelerator p w ∧
          (bfsDistances g nearest.accelerator).getD w 0 = p.length := by
      intro w hw
      rcases h.distance hends hw with ⟨p, hp, -, hlength⟩ | ⟨hnone, -⟩
      · exact ⟨p, hp, hlength⟩
      · obtain ⟨p, hp⟩ := hreach w hw
        exact absurd hp (hnone p)
    constructor
    · rintro ⟨hv, hmin⟩
      obtain ⟨p, hp, hlength⟩ := hdist v hv
      refine ⟨hv, p, hp.1, fun w hw q hq => ?_⟩
      obtain ⟨r, hr, hlength'⟩ := hdist w hw
      have hle := h.le w hw
      have := hr.2 q hq
      omega
    · rintro ⟨hv, p, hp, hleast⟩
      refine ⟨hv, ?_⟩
      obtain ⟨q, hq, hlength⟩ := hdist v hv
      obtain ⟨w, hw, hattained⟩ := h.attained
      obtain ⟨r, hr, hlength'⟩ := hdist w hw
      have hle := h.le v hv
      have := hq.2 p hp
      have := hleast w hw r hr.1
      omega

/-- What is written when something is written about PUs. -/
lemma findDistances_spec {numAccelerators : ℕ} {nearest : NearestPus}
    (hrun : findDistances g = .ok ⟨numAccelerators, some nearest⟩) :
    numAccelerators = (g.typeView .accelerator).vertexRange.length ∧
      NearestPus.Spec g nearest := by
  rcases findDistances_cases g with ⟨-, h⟩ | ⟨-, -, h⟩ | ⟨nearest', h, hspec⟩ <;>
    rw [hrun] at h <;> cases h
  exact ⟨rfl, hspec⟩

end

/-- **When the PUs written are the nearest ones**: exactly if the accelerator is connected
with every PU. If it is not, the PUs that it is not connected with are written, at distance
zero. -/
theorem findDistances_nearest_iff {g : Graph n}
    (hends : ∀ e ∈ g.edges, e.target < g.numVertices) {numAccelerators : ℕ}
    {nearest : NearestPus} (hrun : findDistances g = .ok ⟨numAccelerators, some nearest⟩) :
    ((∀ v, v ∈ nearest.hops.map Prod.fst ↔ g.IsNearestPu nearest.accelerator v) ↔
      ∀ v ∈ (g.typeView .logicalCore).vertexRange, ∃ p, g.Path nearest.accelerator p v) ∧
    ((∃ v ∈ (g.typeView .logicalCore).vertexRange, ∀ p, ¬ g.Path nearest.accelerator p v) →
      nearest.mindist = 0 ∧ ∀ v, v ∈ nearest.hops.map Prod.fst ↔
        v ∈ (g.typeView .logicalCore).vertexRange ∧ ∀ p, ¬ g.Path nearest.accelerator p v) := by
  obtain ⟨-, hspec⟩ := findDistances_spec hrun
  exact ⟨hspec.nearest_iff hends, fun ⟨w, hw, hnone⟩ =>
    hspec.mem_hops_of_unreachable hends hw hnone⟩

/-- A GPU next to one of two PUs, with the other PU further away. -/
def gpuMachine : Graph 0 where
  vertices := [{ mType := .logicalCore }, { mType := .gpu, mDescription := "gfx90a" },
    { mType := .logicalCore }]
  edges := [⟨0, 1, .child⟩, ⟨1, 0, .parent⟩, ⟨0, 2, .child⟩, ⟨2, 0, .parent⟩]

/-- What is written about the GPU. -/
def gpuMachineNearest : NearestPus where
  accelerator := 1
  text := "GPU: gfx90a"
  numPus := 2
  mindist := 1
  hops := [(0, 1)]

theorem findDistances_nearest_iff_gpuMachine :
    ((∀ v, v ∈ gpuMachineNearest.hops.map Prod.fst ↔ gpuMachine.IsNearestPu 1 v) ↔
      ∀ v ∈ (gpuMachine.typeView .logicalCore).vertexRange, ∃ p, gpuMachine.Path 1 p v) ∧
    ((∃ v ∈ (gpuMachine.typeView .logicalCore).vertexRange, ∀ p, ¬ gpuMachine.Path 1 p v) →
      gpuMachineNearest.mindist = 0 ∧ ∀ v, v ∈ gpuMachineNearest.hops.map Prod.fst ↔
        v ∈ (gpuMachine.typeView .logicalCore).vertexRange ∧ ∀ p, ¬ gpuMachine.Path 1 p v) :=
  findDistances_nearest_iff (by decide)
    (show findDistances gpuMachine = .ok ⟨1, some gpuMachineNearest⟩ by decide +kernel)

/-! ### After `init` -/

section

variable {sources : List ModuleSource} {source : MpiSource} {place : Fin source.nbproc → Key}
  {φ : Key → Option VertexT} {g : Graph n}

/-- An operation of a run is one of a module, all of whose operations are in the run. -/
lemma exists_ops_of_mem_sourcesOps {s : ℕ} {op : TopologyOp n} (h : op ∈ sourcesOps s sources) :
    ∃ m ∈ sources, ∃ s', op ∈ m.ops s' ∧
      m.ops s' ⊆ (sourcesOps s sources : List (TopologyOp n)) := by
  induction sources generalizing s with
  | nil => cases h
  | cons m sources ih =>
      rw [sourcesOps] at h ⊢
      rcases List.mem_append.mp h with h | h
      · exact ⟨m, List.mem_cons_self, s, h, List.subset_append_left _ _⟩
      · obtain ⟨m', hmem, s', hop, hsubset⟩ := ih h
        exact ⟨m', List.mem_cons_of_mem _ hmem, s', hop,
          List.subset_append_of_subset_right _ hsubset⟩

/-- An unnamed vertex is that of an object of hwloc. -/
lemma exists_object_of_unnamed {s j : ℕ}
    (h : .unnamed j ∈ (sourcesOps s sources : List (TopologyOp n)).filterMap TopologyOp.putKey) :
    ∃ hw s' i obj, .hwloc hw ∈ sources ∧ hw.checkHwlocApiVersion = .success ∧
      hw.ops s' ⊆ (sourcesOps s sources : List (TopologyOp n)) ∧
      hw.children.objects[i]? = some obj ∧ hw.api.hwlocKey (s' + i) obj = .unnamed j := by
  obtain ⟨op, hop, hkey⟩ := List.mem_filterMap.mp h
  obtain ⟨m, hmem, s', hop, hsubset⟩ := exists_ops_of_mem_sourcesOps hop
  have hrange := (ModuleSource.ops_putKey (List.mem_filterMap.mpr ⟨op, hop, hkey⟩)).2 j rfl
  cases m with
  | hwloc hw =>
      rw [ModuleSource.ops] at hop hsubset
      split at hop
      · next hversion =>
          rw [if_pos hversion] at hsubset
          rcases List.mem_cons.mp hop with rfl | hop
          · cases hkey
          · rcases HwlocApi.mem_hwlocOps hop with ⟨obj, i, hobj, rfl⟩ | ⟨a, b, rfl⟩
            · obtain ⟨hle, -, -⟩ := List.mem_zipIdx hobj
              obtain ⟨i, rfl⟩ := Nat.exists_eq_add_of_le hle
              have hget := List.mk_add_mem_zipIdx_iff_getElem?.mp hobj
              exact ⟨hw, s', i, obj, hmem, hversion, hsubset, hget, Option.some.inj hkey⟩
            · cases hkey
      · cases hop
  | _ =>
      simp only [ModuleSource.objectCount] at hrange
      omega

/-- PARENT edges lead from every object of hwloc to the machine. -/
lemma HwlocSource.reach_machine {hw : HwlocSource} {s : ℕ} {ops : List (TopologyOp n)}
    (hsubset : hw.ops s ⊆ ops) {i : ℕ} {obj : HwlocObj} (hobj : hw.children.objects[i]? = some obj)
    (T : Topology n) :
    Relation.ReflTransGen (Arc.Step .parent (T.run ops).arcs) (hw.api.hwlocKey (s + i) obj)
      (machineKey hw.hostname) := by
  obtain ⟨p, hp, hreach⟩ := hw.api.parent_chain (n := n)
    (R := Arc.Step .parent (T.run ops).arcs) (s := s) (k := machineKey hw.hostname)
    (fun a b hop => Topology.parent_of_mem (hsubset (List.mem_cons_of_mem _ hop)) T) hobj
  exact .head hp hreach

/-- There is a path along edges of one type. -/
lemma Graph.exists_path_of_reach {l : EdgeType} {u v : VertexT}
    (h : Relation.ReflTransGen (Arc.Step l g.edges) u v) : ∃ p, g.Path u p v := by
  induction h with
  | refl => exact ⟨[], .nil⟩
  | tail _ hstep ih =>
      obtain ⟨p, hp⟩ := ih
      obtain ⟨i, hi⟩ := exists_mem_edgeRange hstep
      exact ⟨_, hp.snoc (e := (⟨_, _, l⟩, i)) (mem_outEdges.mpr ⟨hi, rfl⟩)⟩

/-- The root vertex stays. -/
lemma RootFrom.advance {φ' : Key → Option VertexT} {g' : Graph n} {T' : Topology n}
    (h : RootFrom sources ({} : Graph n) g φ) (hadv : Advance φ g φ' g' T') :
    RootFrom sources ({} : Graph n) g' φ' := by
  rcases h with ⟨hw, hmem, hversion, hroot⟩ | ⟨hnone, hroot⟩
  · refine .inl ⟨hw, hmem, hversion, ?_⟩
    rw [hadv.root]
    exact hadv.keeps _ _ hroot
  · exact .inr ⟨hnone, hadv.root.trans hroot⟩

/-- The objects of hwloc are connected with the root vertex. -/
lemma Represents.path_to_root
    (h : Represents φ g (Topology.run (sourcesOps 0 sources ++ source.ops place) Keyed.empty))
    (hkinds : (sources.map ModuleSource.kind).Nodup) (hroot : RootFrom sources ({} : Graph n) g φ)
    {hw : HwlocSource} (hmem : .hwloc hw ∈ sources)
    (hversion : hw.checkHwlocApiVersion = .success) {s i : ℕ}
    (hsubset : hw.ops s ⊆ (sourcesOps 0 sources ++ source.ops place : List (TopologyOp n)))
    {obj : HwlocObj} (hobj : hw.children.objects[i]? = some obj) {v : VertexT}
    (hv : φ (hw.api.hwlocKey (s + i) obj) = some v) : ∃ p, g.Path v p g.mRootVertex := by
  rcases hroot with ⟨hw', hmem', -, hroot⟩ | ⟨hnone, -⟩
  · have heq : (ModuleSource.hwloc hw') = .hwloc hw :=
      List.inj_on_of_nodup_map hkinds hmem' hmem rfl
    obtain rfl := ModuleSource.hwloc.inj heq
    exact Graph.exists_path_of_reach
      ((h.reach_iff hv hroot).mpr (HwlocSource.reach_machine hsubset hobj _))
  · exact absurd hversion (hnone hw hmem)

/-- PUs are objects of hwloc, so that they are connected with the root vertex. -/
lemma Represents.pu_path_to_root
    (h : Represents φ g (Topology.run (sourcesOps 0 sources ++ source.ops place) Keyed.empty))
    (hkinds : (sources.map ModuleSource.kind).Nodup) (hroot : RootFrom sources ({} : Graph n) g φ)
    {v : VertexT} (hv : v ∈ (g.typeView .logicalCore).vertexRange) :
    ∃ p, g.Path v p g.mRootVertex := by
  obtain ⟨hlt, htype⟩ := Graph.mem_typeView.mp hv
  obtain ⟨k, hk⟩ := h.surj v hlt
  -- only unnamed vertices are PUs
  obtain ⟨j, rfl⟩ : ∃ j, k = .unnamed j := by
    have htypeAt := Topology.typeAt_run (h.info_vertex hk)
    generalize (g.vertex v).mType = t at htype htypeAt
    cases htypeAt with
    | object j ht => exact ⟨j, rfl⟩
    | _ => exact absurd htype (by decide)
  have hsome : ((Topology.run (sourcesOps 0 sources ++ source.ops place)
      (Keyed.empty : Topology n)).info (.unnamed j)).isSome := by
    rw [h.info_vertex hk]
    rfl
  rw [Topology.run_info_isSome, List.filterMap_append, List.mem_append] at hsome
  rcases hsome with hsome | hput | hput
  · cases hsome
  · obtain ⟨hw, s, i, obj, hmem, hversion, hsubset, hobj, hkey⟩ := exists_object_of_unnamed hput
    exact h.path_to_root hkinds hroot hmem hversion
      (List.subset_append_of_subset_left _ hsubset) hobj (hkey ▸ hk)
  · obtain ⟨op, hop, hkey⟩ := List.mem_filterMap.mp hput
    cases op with
    | put k f =>
        obtain rfl := Option.some.inj hkey
        rcases MpiSource.mem_ops_put hop with ⟨hostname, hk, -⟩ | ⟨i, hk, -⟩ <;> cases hk
    | _ => cases hkey

end

/-- **The PUs written after `init`** are the nearest ones exactly if the first accelerator is
connected with the machine of hwloc, as it is if hwloc finds the device. All PUs are
connected with the machine. -/
theorem findDistances_init (S : StdSort VertexT) (S' : StdSort Module) {modules : List Module}
    (hkinds : (modules.map fun m => m.source.kind).Nodup) {status : YlocStatus} {g : Graph n}
    (hrun : init S S' modules ({} : Graph n) = .ok (status, g)) {numAccelerators : ℕ}
    {nearest : NearestPus} (hfind : findDistances g = .ok ⟨numAccelerators, some nearest⟩) :
    ((∀ v, v ∈ nearest.hops.map Prod.fst ↔ g.IsNearestPu nearest.accelerator v) ↔
      ∃ p, g.Path nearest.accelerator p g.mRootVertex) ∧
    ∀ hw, ⟨.hwloc hw, true⟩ ∈ modules → hw.checkHwlocApiVersion = .success →
      ∀ obj ∈ hw.children.objects, obj.type = .pciDevice → ∀ b, hw.api.bdfid obj = some b →
        g.lookup (bdfidId b) = some nearest.accelerator →
          ∃ p, g.Path nearest.accelerator p g.mRootVertex := by
  obtain ⟨sources, source, hrun, hfirst, hkinds', hmem, -⟩ := exists_runMpi_of_init hkinds hrun
  obtain ⟨φ, φ', g₀, place, -, -, hroot, hadv, -, -, -⟩ := runMpi_advance hfirst hrun
  have hrep := hadv.rep
  have hends : ∀ e ∈ g.edges, e.target < g.numVertices := fun e he => (hrep.wellFormed.ends e he).2
  obtain ⟨-, hspec⟩ := findDistances_spec hfind
  have hroot' := hroot.advance hadv
  have hrev : g.Reversible :=
    hrep.reversible (Topology.reversible_run _ fun e he => by cases he)
  refine ⟨(hspec.nearest_iff hends).trans ⟨fun hreach => ?_, ?_⟩,
    fun hw hhw hversion obj hobj hpci b hb hid => ?_⟩
  · obtain ⟨v, hv, -⟩ := hspec.attained
    obtain ⟨p, hp⟩ := hreach v hv
    obtain ⟨q, hq⟩ := hrep.pu_path_to_root hkinds' hroot' hv
    exact ⟨p ++ q, hp.append hq⟩
  · rintro ⟨p, hp⟩ v hv
    obtain ⟨q, hq⟩ := hrep.pu_path_to_root hkinds' hroot' hv
    obtain ⟨r, hr, -⟩ := hrev.path hq
    exact ⟨p ++ r, hp.append hr⟩
  · have hhw' := (hmem _ rfl).mpr hhw
    obtain ⟨s, hsubset⟩ := subset_sourcesOps (n := n) hhw' 0
    rw [ModuleSource.ops, if_pos hversion] at hsubset
    obtain ⟨i, hi⟩ := List.getElem?_of_mem hobj
    refine hrep.path_to_root hkinds' hroot' hhw' hversion
      (List.subset_append_of_subset_left _ hsubset) hi ?_
    rw [HwlocApi.hwlocKey_of_bdfid hpci hb, ← hid, hrep.ids]

/-- A core with two PUs next to the first GPU of `linkedGpus`. -/
def puMachine : HwlocSource where
  api := .standard
  compiledVersion := 0x20400
  libraryVersion := 0x20900
  topologyInit := 0
  topologyLoad := 0
  root := { addr := 0, type := .machine }
  root_type := rfl
  children :=
    .cons { addr := 1, type := .core }
      (.cons { addr := 2, type := .pu } .nil (.cons { addr := 3, type := .pu } .nil .nil))
      (.cons { addr := 4, type := .pciDevice, attr := some { pcidev := { bus := 3 } } } .nil .nil)
  hostname := "node"

/-- The GPU is three hops away from both PUs. -/
def puMachineNearest : NearestPus where
  accelerator := 0
  text := "GPU: gfx90a"
  numPus := 2
  mindist := 3
  hops := [(4, 3), (5, 3)]

/-- hwloc finds one of the two GPUs, and both PUs. -/
def puModules : List Module := [⟨.rocm linkedGpus, true⟩, ⟨.hwloc puMachine, true⟩]

lemma puModules_init : ∃ status, ∃ g : Graph 0,
    init .insertion .insertion puModules {} = .ok (status, g) ∧
      findDistances g = .ok ⟨2, some puMachineNearest⟩ := by
  have hfind : (init .insertion .insertion puModules {}).bind
      (fun r : YlocStatus × Graph 0 => findDistances r.2) = .ok ⟨2, some puMachineNearest⟩ := by
    decide +kernel
  obtain ⟨⟨status, g⟩, hrun, hg⟩ := Except.exists_of_bind hfind
  exact ⟨status, g, hrun, hg⟩

theorem findDistances_init_puModules : ∃ status, ∃ g : Graph 0,
    init .insertion .insertion puModules {} = .ok (status, g) ∧
    ((∀ v, v ∈ puMachineNearest.hops.map Prod.fst ↔ g.IsNearestPu 0 v) ↔
      ∃ p, g.Path 0 p g.mRootVertex) ∧
    ∀ hw, ⟨.hwloc hw, true⟩ ∈ puModules → hw.checkHwlocApiVersion = .success →
      ∀ obj ∈ hw.children.objects, obj.type = .pciDevice → ∀ b, hw.api.bdfid obj = some b →
        g.lookup (bdfidId b) = some 0 → ∃ p, g.Path 0 p g.mRootVertex := by
  obtain ⟨status, g, hrun, hfind⟩ := puModules_init
  exact ⟨status, g, hrun, findDistances_init .insertion .insertion (by decide) hrun hfind⟩

end Yloc
