import Yloc.Query
import Yloc.Shape

/-!
Hop distances on topology graphs are symmetric.

The modules add every edge together with an edge back, of whatever types the two
are (`Topology.reversible_run`), so a path can be gone back and a shortest path
turned round is one.

* `runSources_reversible`: the graphs that the modules leave are reversible.
* `bfsDistances_symmetric`: the distance between two vertices, either way, is the
  number of edges of a shortest path.
* `bfsDistances_eq_zero_iff`: where the vector holds zero. A vertex that is not
  reached is not told from the start vertex, as happens with ranks on hosts that
  have no vertex in common (`not_bfsDistances_eq_zero_iff_threeRanks`).
-/

namespace Yloc

variable {n : ℕ}

/-- Every edge of the topology has an edge back. -/
def Topology.Reversible (T : Topology n) : Prop :=
  ∀ e ∈ T.arcs, ∃ e' ∈ T.arcs, e'.source = e.target ∧ e'.target = e.source

namespace Topology

variable {T : Topology n}

/-- A pair of edges, one in each direction, keeps a topology reversible. -/
lemma Reversible.of_pair (h : T.Reversible) {T' : Topology n} {a b : Key} {l l' : EdgeType}
    (harcs : T'.arcs = T.arcs ++ [⟨a, b, l⟩, ⟨b, a, l'⟩]) : T'.Reversible := by
  intro e he
  rw [harcs, List.mem_append] at he
  rw [harcs]
  rcases he with he | he
  · obtain ⟨e', he', hends⟩ := h e he
    exact ⟨e', List.mem_append_left _ he', hends⟩
  · simp only [List.mem_cons, List.not_mem_nil, or_false] at he
    rcases he with rfl | rfl
    · exact ⟨⟨b, a, l'⟩, by simp, rfl, rfl⟩
    · exact ⟨⟨a, b, l⟩, by simp, rfl, rfl⟩

/-- One operation keeps a topology reversible. -/
lemma Reversible.act (h : T.Reversible) (op : TopologyOp n) : (op.act T).Reversible := by
  rcases op.act_arcs T with harcs | ⟨a, b, -, harcs⟩ | ⟨a, b, -, harcs⟩
  · rw [Reversible, harcs]
    exact h
  · exact h.of_pair harcs
  · exact h.of_pair harcs

/-- **Every run keeps a topology reversible.** -/
theorem reversible_run (ops : List (TopologyOp n)) (h : T.Reversible) :
    (T.run ops).Reversible := by
  induction ops generalizing T with
  | nil => exact h
  | cons op ops ih => exact ih (h.act op)

end Topology

/-- A graph is reversible when its topology is. -/
lemma Represents.reversible {φ : Key → Option VertexT} {g : Graph n} {T : Topology n}
    (h : Represents φ g T) (hT : T.Reversible) : g.Reversible := by
  intro e he
  obtain ⟨a, b, ha, hb, hab⟩ := h.exists_of_step (l := e.label) he
  obtain ⟨⟨b', a', l⟩, hba, hb', ha'⟩ := hT _ hab
  obtain rfl : b' = b := hb'
  obtain rfl : a' = a := ha'
  exact ⟨⟨e.target, e.source, l⟩, (h.step_iff hb ha).mpr hba, rfl, rfl⟩

section

variable {sources : List ModuleSource} {g : Graph n}

/-- A run of the modules and `ModuleMPI` leaves a reversible graph whose edges
join existing vertices. -/
theorem SourcesOk.reversible (h : SourcesOk sources) (S : StdSort VertexT) (source : MpiSource) :
    ∃ g : Graph n, runSources S (sources ++ [.mpi source]) {} = .ok g ∧ g.Reversible ∧
      ∀ e ∈ g.edges, e.target < g.numVertices := by
  obtain ⟨g, hrun, -⟩ := h.exists_runMpi (n := n) S source
  obtain ⟨φ, φ', g₀, place, -, -, -, hadv, -, -, -⟩ := runMpi_advance h.first hrun
  have hempty : Topology.Reversible (Keyed.empty : Topology n) := by
    intro e he
    cases he
  exact ⟨g, hrun, hadv.rep.reversible (Topology.reversible_run _ hempty),
    fun e he => (hadv.rep.wellFormed.ends e he).2⟩

end

/-- **Hop distances on topology graphs are symmetric**: after the modules of order
FIRST, at most one of each kind and in any order, and `ModuleMPI`. The run
returns when NVML answers all queries for PCI information. -/
theorem bfsDistances_symmetric (S : StdSort VertexT) {sources : List ModuleSource}
    (horder : ∀ source ∈ sources, source.initOrder = .first)
    (hkinds : (sources.map ModuleSource.kind).Nodup)
    (hbdfids : ∀ hw, .hwloc hw ∈ sources → hw.DistinctBdfids)
    (hhostnames : ∀ sm, .superMUC sm ∈ sources → ∀ hostname ∈ sm.hostnames,
      followsConvention hostname = true)
    (source : MpiSource) :
    ((∀ source ∈ sources, source.IsFirst) →
      ∃ g : Graph n, runSources S (sources ++ [.mpi source]) {} = .ok g) ∧
    ∀ g : Graph n, runSources S (sources ++ [.mpi source]) {} = .ok g →
      ∀ u < g.numVertices, ∀ v < g.numVertices,
        (bfsDistances g u)[v]? = (bfsDistances g v)[u]? ∧
        ∀ p, g.ShortestPath u p v → (bfsDistances g u)[v]? = some (p.length : ℤ) ∧
          (bfsDistances g v)[u]? = some (p.length : ℤ) := by
  refine ⟨fun hfirst => ?_, fun g hrun u hu v hv => ?_⟩
  · obtain ⟨g, hrun, -⟩ :=
      SourcesOk.reversible (n := n) ⟨hfirst, hkinds, hbdfids, hhostnames⟩ S source
    exact ⟨g, hrun⟩
  · -- the modules before `ModuleMPI` have returned
    have hfirst : ∀ source ∈ sources, source.IsFirst := by
      rw [runSources_append] at hrun
      obtain ⟨g₁, hsources, -⟩ := Except.exists_of_bind hrun
      exact isFirst_of_runSources horder hsources
    obtain ⟨g', hrun', hrev, hends⟩ :=
      SourcesOk.reversible (n := n) ⟨hfirst, hkinds, hbdfids, hhostnames⟩ S source
    obtain rfl : g' = g := Except.ok.inj (hrun'.symm.trans hrun)
    have hcomm := bfsDistances_comm hrev hends hu hv
    refine ⟨hcomm, fun p hp => ?_⟩
    have hdist := bfsDistances_of_shortestPath hends hu hv hp
    exact ⟨hdist, hcomm.symm.trans hdist⟩

theorem bfsDistances_symmetric_smallMachine :
    ((∀ source ∈ [ModuleSource.rocm linkedGpus, .hwloc smallMachine, .superMUC smallSystem],
        source.IsFirst) →
      ∃ g : Graph 2, runSources .insertion
        ([.rocm linkedGpus, .hwloc smallMachine, .superMUC smallSystem] ++ [.mpi twoRanks]) {} =
          .ok g) ∧
    ∀ g : Graph 2, runSources .insertion
        ([.rocm linkedGpus, .hwloc smallMachine, .superMUC smallSystem] ++ [.mpi twoRanks]) {} =
          .ok g →
      ∀ u < g.numVertices, ∀ v < g.numVertices,
        (bfsDistances g u)[v]? = (bfsDistances g v)[u]? ∧
        ∀ p, g.ShortestPath u p v → (bfsDistances g u)[v]? = some (p.length : ℤ) ∧
          (bfsDistances g v)[u]? = some (p.length : ℤ) :=
  bfsDistances_symmetric .insertion (by decide) (by decide)
    (fun hw hmem => by
      simp only [List.mem_cons, reduceCtorEq, ModuleSource.hwloc.injEq, List.not_mem_nil,
        or_false, false_or] at hmem
      rw [hmem]
      exact smallMachine_distinctBdfids)
    (fun sm hmem => by
      simp only [List.mem_cons, reduceCtorEq, ModuleSource.superMUC.injEq, List.not_mem_nil,
        or_false, false_or] at hmem
      rw [hmem]
      decide)
    twoRanks

/-! ### Vertices that are not reached -/

/-- **Zero hops are reported for the start vertex alone exactly when the vertex can be
reached**: the vector holds zero where the search does not get. -/
theorem bfsDistances_eq_zero_iff {g : Graph n} (hends : ∀ e ∈ g.edges, e.target < g.numVertices)
    {u v : VertexT} (hu : u < g.numVertices) (hv : v < g.numVertices) :
    ((bfsDistances g u)[v]? = some 0 ↔ v = u) ↔ ∃ p, g.Path u p v := by
  rcases bfsDistances_spec hends hu hv with ⟨p, hp, hdist⟩ | ⟨hnone, hdist⟩
  · have hzero : (bfsDistances g u)[v]? = some 0 ↔ p = [] := by
      rw [hdist, Option.some.injEq, Int.natCast_eq_zero, List.length_eq_zero_iff]
    refine ⟨fun _ => ⟨p, hp.1⟩, fun _ => hzero.trans ⟨?_, ?_⟩⟩
    · rintro rfl
      exact hp.1.end_unique .nil
    · rintro rfl
      exact List.length_eq_zero_iff.mp (Nat.le_zero.mp (hp.2 [] .nil))
  · refine ⟨fun h => ?_, fun ⟨p, hp⟩ => absurd hp (hnone p)⟩
    obtain rfl := h.mp hdist
    exact ⟨[], .nil⟩

theorem bfsDistances_eq_zero_iff_parallelGraph :
    ((bfsDistances parallelGraph 0)[2]? = some 0 ↔ 2 = 0) ↔ ∃ p, parallelGraph.Path 0 p 2 :=
  bfsDistances_eq_zero_iff (by decide) (by decide) (by decide)

/-- Two ranks on the local host, and one on another. -/
def threeRanks : MpiSource where
  initialized := true
  hostname := "i01r01c01s01"
  nbproc := 3
  hostnames := ![("i01r01c01s01" : String), "i01r01c01s01", "i01r01c01s02"]
  cpusets := ![(0b01 : CpuSet), 0b10, 0b01]

/-- Without SuperMUC the hosts have nothing in common, and the rank on the other host is
reported at zero hops, nearer than the one on the same host. -/
theorem not_bfsDistances_eq_zero_iff_threeRanks :
    ∃ g : Graph 2, runSources .insertion [.hwloc smallMachine, .mpi threeRanks] {} = .ok g ∧
      ∃ u v w, g.lookup (mpiRankId 0) = some u ∧ g.lookup (mpiRankId 1) = some v ∧
        g.lookup (mpiRankId 2) = some w ∧ (bfsDistances g u)[v]? = some 4 ∧
        (bfsDistances g u)[w]? = some 0 ∧ ¬ ((bfsDistances g u)[w]? = some 0 ↔ w = u) := by
  have hrun : (runSources .insertion [.hwloc smallMachine, .mpi threeRanks] {}).toOption.map
      (fun g : Graph 2 => (g.lookup (mpiRankId 0), g.lookup (mpiRankId 1),
        g.lookup (mpiRankId 2), (bfsDistances g 5)[6]?, (bfsDistances g 5)[8]?)) =
      some (some 5, some 6, some 8, some 4, some 0) := by decide +kernel
  cases hg : (runSources .insertion [.hwloc smallMachine, .mpi threeRanks] {} :
      Except Abort (Graph 2)) with
  | error e =>
      rw [hg] at hrun
      cases hrun
  | ok g =>
      rw [hg] at hrun
      simp only [Except.toOption, Option.map_some, Option.some.injEq, Prod.mk.injEq] at hrun
      obtain ⟨h0, h1, h2, hsame, hother⟩ := hrun
      exact ⟨g, rfl, 5, 6, 8, h0, h1, h2, hsame, hother, fun h => absurd (h.mp hother) (by decide)⟩

end Yloc
