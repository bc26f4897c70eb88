import Yloc.HopDistance
import Yloc.LowestVertex

/-!
Where a rank is attached does not depend on the other ranks.

Every round of `make_mpi_graph` changes the graph that the next round searches: it adds
vertices without CHILD edges out of them, and CHILD edges that lead to MPI processes
(`Graph.AddsRanks`), which the search passes over. So the search takes the same way on the
larger graph (`Graph.AddsRanks.lowestContainingVertex`), every rank is attached where a
search on the graph before the module leads, and the module leaves the results of all
searches as they were (`makeMpiGraph_rankPlacement`).
-/

namespace Yloc

open Relation

variable {n : ℕ}

namespace Graph

/-- The edges from or to `vd`. -/
def edgesAt (g : Graph n) (vd : VertexT) : List Edge :=
  g.edges.filter fun e => e.source == vd || e.target == vd

/-- The vertex of rank `i` is there, and its edges are a CHILD edge from `vd` and a PARENT
edge back. -/
def AttachesRank (g : Graph n) (i : ℕ) (vd : VertexT) : Prop :=
  ∃ rankVd, g.lookup (mpiRankId i) = some rankVd ∧
    g.edgesAt rankVd = [⟨vd, rankVd, .child⟩, ⟨rankVd, vd, .parent⟩]

/-- The graph `g'` is `g` with further vertices and edges, and its further CHILD edges lead
to MPI processes. -/
structure AddsRanks (g g' : Graph n) : Prop where
  wellFormed : g'.WellFormed
  numVertices : g.numVertices ≤ g'.numVertices
  root : g'.mRootVertex = g.mRootVertex
  vertex : ∀ v < g.numVertices, g'.vertex v = g.vertex v
  edges : ∃ new, g'.edges = g.edges ++ new ∧
    ∀ e ∈ new, e.label = .child → (g'.vertex e.target).mType.isA .mpiProcess = true

end Graph

/-- The module places the ranks on their own: the graph before it is `g`, the graph after
it `g'`. -/
structure RankPlacement (S : StdSort VertexT) (source : MpiSource) (g g' : Graph n) : Prop where
  /-- A rank of the local host is attached where the search for its mask leads in the graph
  before the module. -/
  search : ∀ i, source.hostnames i = source.hostname →
    (AffinityMask.ofCpuSet (source.cpusets i) : AffinityMask n).any = true →
    ∃ vd, lowestContainingVertex S g (AffinityMask.ofCpuSet (source.cpusets i)) = .ok vd ∧
      g'.AttachesRank i vd
  /-- Every rank has one CHILD edge and one PARENT edge. -/
  edges : ∀ i : Fin source.nbproc, ∃ vd, g'.AttachesRank i vd
  /-- Searches lead where they led before. -/
  frame : ∀ mask, lowestContainingVertex S g' mask = lowestContainingVertex S g mask

/-! ### The search on a graph with more ranks -/

namespace Graph.AddsRanks

variable {g g' : Graph n}

lemma refl (hg : g.WellFormed) : g.AddsRanks g :=
  ⟨hg, le_rfl, rfl, fun _ _ => rfl, [], by simp, by simp⟩

/-- MPI processes are no candidates. -/
lemma candidates (h : g.AddsRanks g') (hg : g.WellFormed) (mask : AffinityMask n) (u : VertexT) :
    g'.candidates mask u = g.candidates mask u := by
  obtain ⟨new, hedges, hnew⟩ := h.edges
  have hchildren : g'.childTargets u = g.childTargets u ++
      (new.filter fun e => e.source == u && e.label == .child).map Arc.target := by
    rw [childTargets, hedges, List.filter_append, List.map_append]
    rfl
  have hold : (g.childTargets u).filter (g'.eligible mask) =
      (g.childTargets u).filter (g.eligible mask) := by
    refine List.filter_congr fun v hv => ?_
    rw [eligible, eligible, h.vertex v (hg.ends _ (mem_childTargets.mp hv)).2]
  have hranks : ((new.filter fun e => e.source == u && e.label == .child).map Arc.target).filter
      (g'.eligible mask) = [] := by
    refine List.filter_eq_nil_iff.mpr fun v hv => ?_
    obtain ⟨e, he, rfl⟩ := List.mem_map.mp hv
    simp only [List.mem_filter, Bool.and_eq_true, beq_iff_eq] at he
    rw [eligible, hnew e he.1 he.2.2]
    simp
  rw [Graph.candidates, hchildren, List.filter_append, hold, hranks, List.append_nil]
  rfl

/-- Wherever the search is, it goes on as before. -/
lemma lowestContainingVertexFrom (h : g.AddsRanks g') (hg : g.WellFormed) {S : StdSort VertexT}
    (hS : S.Deterministic) (mask : AffinityMask n) (fuel : ℕ) {u : VertexT}
    (hu : u < g.numVertices) :
    Yloc.lowestContainingVertexFrom S g' mask fuel u =
      Yloc.lowestContainingVertexFrom S g mask fuel u := by
  induction fuel generalizing u with
  | zero =>
      rw [Yloc.lowestContainingVertexFrom, Yloc.lowestContainingVertexFrom, h.candidates hg,
        if_neg (not_le.mpr hu), if_neg (not_le.mpr (hu.trans_le h.numVertices))]
  | succ fuel ih =>
      rw [Yloc.lowestContainingVertexFrom, Yloc.lowestContainingVertexFrom, h.candidates hg,
        if_neg (not_le.mpr hu), if_neg (not_le.mpr (hu.trans_le h.numVertices))]
      cases hcs : g.candidates mask u with
      | nil => rfl
      | cons c cs =>
          have hlt : ∀ v, g.EligibleChild mask u v → v < g.numVertices := fun v hv =>
            (hg.ends _ hv.1).2
          have hsort : S.sort g'.maskCount (c :: cs) = S.sort g.maskCount (c :: cs) := by
            refine hS _ _ _ fun v hv => ?_
            rw [← hcs] at hv
            rw [maskCount, maskCount, h.vertex v (hlt v (mem_candidates.mp hv))]
          simp only [hsort]
          exact ih (hlt _ (descends_sort S hcs).1)

/-- **The search is the same with more ranks in the graph.** -/
theorem lowestContainingVertex (h : g.AddsRanks g') (hg : g.WellFormed) {S : StdSort VertexT}
    (hS : S.Deterministic) {mask : AffinityMask n} {v : VertexT}
    (hv : Yloc.lowestContainingVertex S g mask = .ok v) :
    Yloc.lowestContainingVertex S g' mask = .ok v := by
  have hroot : g.mRootVertex < g.numVertices := by
    by_contra hroot
    rw [Yloc.lowestContainingVertex, Yloc.lowestContainingVertexFrom,
      if_pos (not_lt.mp hroot)] at hv
    cases hv
  rw [Yloc.lowestContainingVertex, h.root]
  refine lowestContainingVertexFrom_mono h.numVertices ?_
  rw [h.lowestContainingVertexFrom hg hS mask _ hroot]
  exact hv

end Graph.AddsRanks

/-! ### What one round adds -/

namespace Graph

/-- What `add_vertex(id)` does to a graph: the vertex `vd` is there, at the end if the
identifier was unbound. -/
structure AddsVertex (id : Identifier) (vd : VertexT) (g g' : Graph n) : Prop where
  lookup : g'.lookup id = some vd
  keeps : ∀ id' v, g.lookup id' = some v → g'.lookup id' = some v
  others : ∀ id', id' ≠ id → g'.lookup id' = g.lookup id'
  new : g.lookup id = none → g.numVertices = vd
  le : g.numVertices ≤ g'.numVertices
  vertex : ∀ v < g.numVertices, g'.vertex v = g.vertex v
  edges : g'.edges = g.edges
  root : g'.mRootVertex = g.mRootVertex
  wellFormed : g'.WellFormed

lemma WellFormed.addVertexId {g : Graph n} (h : g.WellFormed) (id : Identifier) :
    ∃ vd g', g.addVertexId id = (vd, g') ∧ g.AddsVertex id vd g' := by
  obtain ⟨φ, T, hrep, -⟩ := exists_represents h
  obtain ⟨φ', vd, g', heq, -, hadv⟩ := hrep.addVertexId id
  have hself := g.addVertexId_lookup_self id
  have hothers := fun id' (hne : id' ≠ id) => g.addVertexId_lookup_of_ne hne
  have hedges := g.addVertexId_edges id
  have hroot := g.addVertexId_root id
  rw [heq] at hself hothers hedges hroot
  refine ⟨vd, g', heq, ?_⟩
  cases hid : g.lookup id with
  | some vd' =>
      rw [addVertexId_of_some hid] at heq
      cases heq
      exact ⟨hid, fun _ _ h => h, fun _ _ => rfl, by simp [hid], le_rfl, fun _ _ => rfl, rfl, rfl,
        h⟩
  | none =>
      have hkeeps : ∀ id' v, g.lookup id' = some v → g'.lookup id' = some v := by
        intro id' v hid'
        rw [hothers id' (by rintro rfl; rw [hid] at hid'; cases hid'), hid']
      rw [addVertexId_of_none hid] at heq
      cases heq
      refine ⟨hself, hkeeps, hothers, fun _ => rfl, ?_, fun v hv => ?_, hedges, hroot,
        hadv.rep.wellFormed⟩
      · rw [numVertices, numVertices, addVertex, List.length_append]
        exact Nat.le_add_right _ _
      · rw [vertex, vertex, addVertex, List.getElem?_append_left hv]

lemma modify_vertex_of_ne (g : Graph n) {vd v : VertexT} (hne : v ≠ vd)
    (f : Vertex n → Vertex n) : (g.modify vd f).vertex v = g.vertex v := by
  rw [vertex, vertex, modify, List.getElem?_modify_ne _ _ hne.symm]

lemma modify_vertex_self {g : Graph n} {vd : VertexT} (hvd : vd < g.numVertices)
    (f : Vertex n → Vertex n) : (g.modify vd f).vertex vd = f (g.vertex vd) := by
  rw [vertex, vertex, modify, List.getElem?_modify_eq, List.getElem?_eq_getElem hvd]
  rfl

lemma WellFormed.modify {g : Graph n} (h : g.WellFormed) (vd : VertexT)
    (f : Vertex n → Vertex n) : (g.modify vd f).WellFormed where
  bound id v hid := by
    rw [modify_numVertices]
    exact h.bound id v hid
  inj := h.inj
  ends e he := by
    rw [modify_numVertices]
    exact h.ends e he

end Graph

namespace Graph.AddsRanks

variable {g g' : Graph n}

/-- A further vertex. -/
lemma addVertex (h : g.AddsRanks g') {id : Identifier} {vd : VertexT} {g₁ : Graph n}
    (hadd : g'.AddsVertex id vd g₁) : g.AddsRanks g₁ := by
  obtain ⟨new, hedges, hnew⟩ := h.edges
  refine ⟨hadd.wellFormed, h.numVertices.trans hadd.le, hadd.root.trans h.root, fun v hv => ?_,
    new, hadd.edges.trans hedges, fun e he hchild => ?_⟩
  · rw [hadd.vertex v (hv.trans_le h.numVertices), h.vertex v hv]
  · rw [hadd.vertex _ (h.wellFormed.ends e (hedges ▸ List.mem_append_right _ he)).2]
    exact hnew e he hchild

/-- A change of a further vertex, by which MPI processes stay MPI processes. -/
lemma modify (h : g.AddsRanks g') {vd : VertexT} (hvd : g.numVertices ≤ vd)
    {f : Vertex n → Vertex n}
    (hf : ∀ v, v.mType.isA .mpiProcess = true → (f v).mType.isA .mpiProcess = true) :
    g.AddsRanks (g'.modify vd f) := by
  obtain ⟨new, hedges, hnew⟩ := h.edges
  refine ⟨h.wellFormed.modify vd f, ?_, h.root, fun v hv => ?_, new, hedges,
    fun e he hchild => ?_⟩
  · rw [modify_numVertices]
    exact h.numVertices
  · rw [modify_vertex_of_ne _ (hv.trans_le hvd).ne, h.vertex v hv]
  · by_cases htarget : e.target = vd
    · have hmem : e ∈ g'.edges := hedges ▸ List.mem_append_right _ he
      rw [← htarget, modify_vertex_self (h.wellFormed.ends e hmem).2]
      exact hf _ (hnew e he hchild)
    · rw [modify_vertex_of_ne _ htarget]
      exact hnew e he hchild

/-- The edges of a rank. -/
lemma addEdges (h : g.AddsRanks g') {u vd : VertexT} (hu : u < g'.numVertices)
    (hvd : vd < g'.numVertices) (htype : (g'.vertex vd).mType.isA .mpiProcess = true) :
    g.AddsRanks ((g'.addEdge u vd .child).addEdge vd u .parent) := by
  obtain ⟨new, hedges, hnew⟩ := h.edges
  refine ⟨⟨h.wellFormed.bound, h.wellFormed.inj, fun e he => ?_⟩, h.numVertices, h.root, h.vertex,
    new ++ [⟨u, vd, .child⟩, ⟨vd, u, .parent⟩], ?_, fun e he hchild => ?_⟩
  · simp only [addEdge, List.mem_append, List.mem_singleton] at he
    rcases he with (he | rfl) | rfl
    · exact h.wellFormed.ends e he
    · exact ⟨hu, hvd⟩
    · exact ⟨hvd, hu⟩
  · simp [addEdge, hedges]
  · rcases List.mem_append.mp he with he | he
    · exact hnew e he hchild
    · rcases List.mem_pair.mp he with rfl | rfl
      · exact htype
      · cases hchild

end Graph.AddsRanks

/-- The graph `g₁` is what a round makes of `g'` before it adds edges: rank `i` and its
machine have their vertices, that of the rank being a new one. -/
structure RankVertices (source : MpiSource) (i : Fin source.nbproc) (g' g₁ : Graph n)
    (machineVd rankVd : VertexT) : Prop where
  machine : g₁.lookup (machineId (source.hostnames i)) = some machineVd
  rank : g₁.lookup (mpiRankId i) = some rankVd
  new : g'.numVertices ≤ rankVd
  lt : rankVd < g₁.numVertices
  type : (g₁.vertex rankVd).mType.isA .mpiProcess = true
  edges : g₁.edges = g'.edges
  keeps : ∀ id v, g'.lookup id = some v → g₁.lookup id = some v
  others : ∀ j, j ≠ i → g₁.lookup (mpiRankId j) = g'.lookup (mpiRankId j)

/-- The vertices of a round. -/
lemma Graph.AddsRanks.makeMpiRank {g g' : Graph n} (h : g.AddsRanks g') (S : StdSort VertexT)
    {source : MpiSource} {i : Fin source.nbproc} (hi : g'.lookup (mpiRankId i) = none) :
    ∃ machineVd rankVd g₁, Yloc.makeMpiRank S source g' i =
        (match source.localMask n i with
          | some mask => Yloc.lowestContainingVertex S g₁ mask
          | none => .ok machineVd).map
            (fun vd => (g₁.addEdge vd rankVd .child).addEdge rankVd vd .parent) ∧
      g.AddsRanks g₁ ∧ RankVertices source i g' g₁ machineVd rankVd := by
  obtain ⟨machineVd, g₂, hmachine, hadd₂⟩ :=
    h.wellFormed.addVertexId (machineId (source.hostnames i))
  obtain ⟨rankVd, g₃, hrank, hadd₃⟩ := hadd₂.wellFormed.addVertexId (mpiRankId i)
  have hadds := (h.addVertex hadd₂).addVertex hadd₃
  have hnone : g₂.lookup (mpiRankId i) = none := by
    rw [hadd₂.others _ (machineId_ne_mpiRankId _ _).symm, hi]
  have hnew : g'.numVertices ≤ rankVd := hadd₂.le.trans (hadd₃.new hnone).le
  have hlt : rankVd < g₃.numVertices := hadd₃.wellFormed.bound _ _ hadd₃.lookup
  have hge : g.numVertices ≤ rankVd := h.numVertices.trans hnew
  have hmask : ∀ v : Vertex n, (source.contributeMask i v).mType = v.mType :=
    contributeMask_type source i
  refine ⟨machineVd, rankVd,
    (g₃.modify rankVd (contributeRank i)).modify rankVd (source.contributeMask i), ?_,
    (hadds.modify hge fun _ _ => rfl).modify hge fun v hv => by rwa [hmask],
    hadd₃.keeps _ _ hadd₂.lookup, hadd₃.lookup, hnew, ?_, ?_, hadd₃.edges.trans hadd₂.edges,
    fun id v hid => hadd₃.keeps _ _ (hadd₂.keeps _ _ hid), fun j hj => ?_⟩
  · rw [Yloc.makeMpiRank, hmachine]
    simp only [hrank]
    cases source.localMask n i with
    | none => rfl
    | some mask =>
        simp only
        generalize Yloc.lowestContainingVertex S _ mask = result
        cases result <;> rfl
  · rw [Graph.modify_numVertices, Graph.modify_numVertices]
    exact hlt
  · rw [Graph.modify_vertex_self (by rwa [Graph.modify_numVertices]), hmask,
      Graph.modify_vertex_self hlt]
    rfl
  · rw [Graph.modify_lookup, Graph.modify_lookup, hadd₃.others, hadd₂.others]
    · exact (machineId_ne_mpiRankId _ _).symm
    · exact fun heq => hj (Fin.ext (mpiRankId_inj.mp heq))

/-! ### The edges of the ranks -/

namespace Graph

/-- The edges of a new vertex. -/
lemma edgesAt_addEdges_self {g : Graph n} {u vd : VertexT}
    (hnew : ∀ e ∈ g.edges, e.source ≠ vd ∧ e.target ≠ vd) :
    ((g.addEdge u vd .child).addEdge vd u .parent).edgesAt vd =
      [⟨u, vd, .child⟩, ⟨vd, u, .parent⟩] := by
  have hold : g.edges.filter (fun e => e.source == vd || e.target == vd) = [] := by
    refine List.filter_eq_nil_iff.mpr fun e he => ?_
    simp [hnew e he]
  simp [edgesAt, addEdge, hold]

/-- The edges of other vertices stay. -/
lemma edgesAt_addEdges_of_ne {g : Graph n} {u vd w : VertexT} (hu : u ≠ w) (hvd : vd ≠ w) :
    ((g.addEdge u vd .child).addEdge vd u .parent).edgesAt w = g.edgesAt w := by
  simp [edgesAt, addEdge, hu, hvd]

/-- A rank is attached at one place. -/
lemma AttachesRank.unique {g : Graph n} {i : ℕ} {u v : VertexT} (hu : g.AttachesRank i u)
    (hv : g.AttachesRank i v) : u = v := by
  obtain ⟨rankVd, hrank, hedges⟩ := hu
  obtain ⟨rankVd', hrank', hedges'⟩ := hv
  obtain rfl := Option.some.inj (hrank.symm.trans hrank')
  rw [hedges] at hedges'
  exact (Arc.mk.inj (List.cons.inj hedges').1).1

end Graph

/-- Where rank `i` belongs: on the local host where the search leads in the graph `g`
before the module, else at its machine. -/
structure MpiSource.Belongs (S : StdSort VertexT) (source : MpiSource) (g g' : Graph n)
    (i : Fin source.nbproc) (vd : VertexT) : Prop where
  search : ∀ mask, source.localMask n i = some mask → lowestContainingVertex S g mask = .ok vd
  machine : source.localMask n i = none →
    g'.lookup (machineId (source.hostnames i)) = some vd

/-- The loop has attached the ranks in `done`, and `g'` is its graph. -/
structure RanksAttached (S : StdSort VertexT) (source : MpiSource) (g : Graph n)
    (done : Set (Fin source.nbproc)) (g' : Graph n) : Prop where
  adds : g.AddsRanks g'
  unbound : ∀ i ∉ done, g'.lookup (mpiRankId i) = none
  attached : ∀ i ∈ done, ∃ vd rankVd, g'.lookup (mpiRankId i) = some rankVd ∧
    g.numVertices ≤ rankVd ∧ g'.edgesAt rankVd = [⟨vd, rankVd, .child⟩, ⟨rankVd, vd, .parent⟩] ∧
    source.Belongs S g g' i vd

section

variable {S : StdSort VertexT} {source : MpiSource} {g g' : Graph n}
  {done : Set (Fin source.nbproc)}

/-- The rank is attached where it belongs, which is at no rank's vertex. -/
lemma RankVertices.exists_place {i : Fin source.nbproc} {g₁ : Graph n}
    {machineVd rankVd : VertexT} (h : RankVertices source i g' g₁ machineVd rankVd)
    (hadds : g.AddsRanks g₁) (hS : S.Deterministic) (hg : g.WellFormed)
    (hroot : g.mRootVertex < g.numVertices) (hacyclic : Acyclic g.Child) :
    ∃ vd, (match source.localMask n i with
        | some mask => lowestContainingVertex S g₁ mask
        | none => .ok machineVd) = .ok vd ∧ vd < g₁.numVertices ∧
      (∀ j w, g₁.lookup (mpiRankId j) = some w → g.numVertices ≤ w → vd ≠ w) ∧
      source.Belongs S g g₁ i vd := by
  cases hmask : source.localMask n i with
  | none =>
      refine ⟨machineVd, rfl, hadds.wellFormed.bound _ _ h.machine, fun j w hj _ heq => ?_,
        by simp [hmask], fun _ => h.machine⟩
      exact machineId_ne_mpiRankId _ _
        (hadds.wellFormed.inj _ _ _ h.machine (by rw [hj, heq]))
  | some mask =>
      obtain ⟨vd, hvd⟩ := exists_lowestContainingVertex S mask hroot
        (fun u v huv => (hg.ends _ huv).2) hacyclic
      -- the search leads to a vertex that was there before the module
      have hlt := (lowestContainingVertex_spec hvd).1
      refine ⟨vd, hadds.lowestContainingVertex hg hS hvd, hlt.trans_le hadds.numVertices,
        fun j w _ hw => (hlt.trans_le hw).ne, fun mask' hmask' => ?_, by simp [hmask]⟩
      rw [hmask] at hmask'
      obtain rfl := Option.some.inj hmask'
      exact hvd

/-- **A round attaches its rank where it belongs** and leaves the other ranks alone. -/
theorem RanksAttached.makeMpiRank (hS : S.Deterministic) (hg : g.WellFormed)
    (hroot : g.mRootVertex < g.numVertices) (hacyclic : Acyclic g.Child)
    (h : RanksAttached S source g done g') {i : Fin source.nbproc} (hi : i ∉ done) :
    ∃ g'', Yloc.makeMpiRank S source g' i = .ok g'' ∧
      RanksAttached S source g (insert i done) g'' := by
  obtain ⟨machineVd, rankVd, g₁, hround, hadds, hvertices⟩ :=
    h.adds.makeMpiRank S (h.unbound i hi)
  have hge : g.numVertices ≤ rankVd := h.adds.numVertices.trans hvertices.new
  obtain ⟨vd, hvd, hlt, hne, hbelongs⟩ := hvertices.exists_place hadds hS hg hroot hacyclic
  rw [hvd] at hround
  refine ⟨_, hround, hadds.addEdges hlt hvertices.lt hvertices.type, fun j hj => ?_,
    fun j hj => ?_⟩
  · rw [Set.mem_insert_iff, not_or] at hj
    rw [Graph.addEdge_lookup, Graph.addEdge_lookup, hvertices.others j hj.1, h.unbound j hj.2]
  · rcases eq_or_ne j i with rfl | hji
    · refine ⟨vd, rankVd, hvertices.rank, hge, Graph.edgesAt_addEdges_self fun e he => ?_,
        hbelongs.search, hbelongs.machine⟩
      rw [hvertices.edges] at he
      have hends := h.adds.wellFormed.ends e he
      exact ⟨(hends.1.trans_le hvertices.new).ne, (hends.2.trans_le hvertices.new).ne⟩
    · obtain ⟨vd', rankVd', hrank', hge', hedges', hbelongs'⟩ :=
        h.attached j (hj.resolve_left hji)
      have hrank₁ := hvertices.keeps _ _ hrank'
      have hother : rankVd ≠ rankVd' :=
        ((h.adds.wellFormed.bound _ _ hrank').trans_le hvertices.new).ne'
      refine ⟨vd', rankVd', hrank₁, hge', ?_, hbelongs'.search, fun hmask =>
        hvertices.keeps _ _ (hbelongs'.machine hmask)⟩
      rw [Graph.edgesAt_addEdges_of_ne (hne _ _ hrank₁ hge') hother, Graph.edgesAt,
        hvertices.edges]
      exact hedges'

/-- The rounds for a list of ranks. -/
theorem RanksAttached.makeMpiRanks (hS : S.Deterministic) (hg : g.WellFormed)
    (hroot : g.mRootVertex < g.numVertices) (hacyclic : Acyclic g.Child)
    {ranks : List (Fin source.nbproc)} (hnodup : ranks.Nodup) (hnew : ∀ i ∈ ranks, i ∉ done)
    (h : RanksAttached S source g done g') :
    ∃ g'', ranks.foldlM (Yloc.makeMpiRank S source) g' = .ok g'' ∧
      RanksAttached S source g (done ∪ {i | i ∈ ranks}) g'' := by
  induction ranks generalizing done g' with
  | nil => exact ⟨g', rfl, by simpa using h⟩
  | cons i ranks ih =>
      obtain ⟨hi, hnodup⟩ := List.nodup_cons.mp hnodup
      obtain ⟨g₁, hround, h₁⟩ := h.makeMpiRank hS hg hroot hacyclic (hnew i List.mem_cons_self)
      obtain ⟨g₂, hrounds, h₂⟩ := ih hnodup (fun j hj hmem => by
        rcases hmem with rfl | hmem
        · exact hi hj
        · exact hnew j (List.mem_cons_of_mem _ hj) hmem) h₁
      refine ⟨g₂, ?_, ?_⟩
      · rw [List.foldlM_cons, hround]
        exact hrounds
      · have hsets : done ∪ {j | j ∈ i :: ranks} = insert i done ∪ {j | j ∈ ranks} := by
          ext j
          simp only [Set.mem_union, Set.mem_ofPred_eq, List.mem_cons, Set.mem_insert_iff]
          tauto
        rwa [hsets]

end

/-- The module returns, with the ranks where they belong. -/
lemma exists_rankPlacement {S : StdSort VertexT} (hS : S.Deterministic) {g : Graph n}
    (hg : g.WellFormed) (hroot : g.mRootVertex < g.numVertices) (hacyclic : Acyclic g.Child)
    (hranks : ∀ i, g.lookup (mpiRankId i) = none) (source : MpiSource) :
    ∃ g', makeMpiGraph S source g = .ok g' ∧ RankPlacement S source g g' := by
  have hbegin : RanksAttached S source g ∅ g :=
    ⟨.refl hg, fun i _ => hranks i, fun i hi => absurd hi (Set.notMem_empty i)⟩
  obtain ⟨g', hrun, h⟩ := hbegin.makeMpiRanks hS hg hroot hacyclic
    (List.nodup_finRange source.nbproc) fun i _ => Set.notMem_empty i
  have hattached := fun i => h.attached i (.inr (List.mem_finRange i))
  refine ⟨g', hrun, fun i hlocal hmask => ?_, fun i => ?_, fun mask => ?_⟩
  · obtain ⟨vd, rankVd, hrank, -, hedges, hbelongs⟩ := hattached i
    refine ⟨vd, hbelongs.search _ ?_, rankVd, hrank, hedges⟩
    rw [MpiSource.localMask, if_pos hlocal]
    exact if_pos hmask
  · obtain ⟨vd, rankVd, hrank, -, hedges, -⟩ := hattached i
    exact ⟨vd, rankVd, hrank, hedges⟩
  · obtain ⟨vd, hvd⟩ := exists_lowestContainingVertex S mask hroot
      (fun u v huv => (hg.ends _ huv).2) hacyclic
    rw [hvd, h.adds.lowestContainingVertex hg hS hvd]

/-- **Rank placement does not depend on the other ranks.** The module attaches every rank of
the local host where the search for its mask leads in the graph before the module, so that
the same rank among any other ranks is attached at the same vertex; every rank has one CHILD
edge and one PARENT edge, and afterwards every search leads where it led before. -/
theorem makeMpiGraph_rankPlacement {S : StdSort VertexT} (hS : S.Deterministic) {g : Graph n}
    (hg : g.WellFormed) (hroot : g.mRootVertex < g.numVertices) (hacyclic : Acyclic g.Child)
    (hranks : ∀ i, g.lookup (mpiRankId i) = none) (source : MpiSource) :
    ∃ g', makeMpiGraph S source g = .ok g' ∧ RankPlacement S source g g' ∧
      ∀ (source' : MpiSource) (i : Fin source.nbproc) (j : Fin source'.nbproc),
        source.hostnames i = source.hostname → source'.hostnames j = source'.hostname →
        source'.cpusets j = source.cpusets i →
        (AffinityMask.ofCpuSet (source.cpusets i) : AffinityMask n).any = true →
        ∃ g'', makeMpiGraph S source' g = .ok g'' ∧
          ∀ vd, g'.AttachesRank i vd ↔ g''.AttachesRank j vd := by
  obtain ⟨g', hrun, h⟩ := exists_rankPlacement hS hg hroot hacyclic hranks source
  refine ⟨g', hrun, h, fun source' i j hlocal hlocal' hcpuset hmask => ?_⟩
  obtain ⟨g'', hrun', h'⟩ := exists_rankPlacement hS hg hroot hacyclic hranks source'
  obtain ⟨u, hu, hattached⟩ := h.search i hlocal hmask
  obtain ⟨u', hu', hattached'⟩ := h'.search j hlocal' (by rwa [hcpuset])
  rw [hcpuset, hu] at hu'
  obtain rfl := Except.ok.inj hu'
  refine ⟨g'', hrun', fun vd => ⟨fun hvd => ?_, fun hvd => ?_⟩⟩
  · rwa [hvd.unique hattached]
  · rwa [hvd.unique hattached']

theorem makeMpiGraph_rankPlacement_overlap :
    ∃ g', makeMpiGraph .insertion threeRanks overlapGraph = .ok g' ∧
      RankPlacement .insertion threeRanks overlapGraph g' ∧
      ∀ (source' : MpiSource) (i : Fin threeRanks.nbproc) (j : Fin source'.nbproc),
        threeRanks.hostnames i = threeRanks.hostname →
        source'.hostnames j = source'.hostname → source'.cpusets j = threeRanks.cpusets i →
        (AffinityMask.ofCpuSet (threeRanks.cpusets i) : AffinityMask 3).any = true →
        ∃ g'', makeMpiGraph .insertion source' overlapGraph = .ok g'' ∧
          ∀ vd, g'.AttachesRank i vd ↔ g''.AttachesRank j vd :=
  makeMpiGraph_rankPlacement (StdSort.prefer_deterministic _)
    ⟨by simp [Graph.lookup, overlapGraph], by simp [Graph.lookup, overlapGraph], by decide⟩
    overlapGraph_childTree.root overlapGraph_childTree.acyclic (fun _ => rfl) threeRanks

end Yloc
