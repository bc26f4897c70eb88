import Yloc.SystemHierarchy
import Yloc.TreeDistance

/-!
Hop distances between hosts.

With SuperMUC the machine of a host hangs below its column, rack and island
(`hostKey`), and nothing else hangs between them, whatever the other modules do. How far
two hosts are apart is then a matter of their names: `hostLevel` counts the steps up to
what they have in common.

* `meet_hostKey`: where two machines meet.
* `bfsDistances_hosts`: the distance of vertices below the machines of two hosts.
* `bfsDistances_ranks`: the distance of two ranks on other hosts, which is the same in the
  graph of every process.
-/

namespace Yloc

variable {n : ℕ}

/-- The number of steps from the machines of two hosts to what they have in common. -/
def hostLevel (a b : String) : Option ℕ :=
  if a = b then some 0
  else if cut a 9 = cut b 9 then some 1
  else if cut a 6 = cut b 6 then some 2
  else if cut a 3 = cut b 3 then some 3
  else none

/-! ### Where two machines meet -/

section

variable {a b : String} {j k : ℕ}

/-- Components of two hosts are the same at the same level only. -/
lemma hostKey_level (ha : a.length = 12) (hb : b.length = 12) (hj : j ≤ 3) (hk : k ≤ 3)
    (h : hostKey a j = hostKey b k) : j = k := by
  have hlength : ∀ {s : String} {i : ℕ}, s.length = 12 → i ≤ 3 →
      SupermucArc.keyLength (hostKey s i) = if i = 0 then 20 else 7 + (12 - 3 * i) := by
    intro s i hs hi
    cases i with
    | zero => rw [hostKey, SupermucArc.keyLength, machineId, String.length_append, hs]; rfl
    | succ i =>
        rw [hostKey, SupermucArc.keyLength, systemId, String.length_append, cut_length, hs,
          if_neg i.succ_ne_zero, min_eq_left (by omega), show 12 - 3 * (i + 1) = 9 - 3 * i by omega]
        rfl
  have heq := congrArg SupermucArc.keyLength h
  rw [hlength ha hj, hlength hb hk] at heq
  split at heq <;> split at heq <;> omega

/-- The level is looked for from the machines on. -/
lemma hostLevel_eq (a b : String) :
    hostLevel a b = (List.range 4).find? fun k => hostKey a k = hostKey b k := by
  have hzero : hostKey a 0 = hostKey b 0 ↔ a = b := by simp [hostKey, machineId_inj]
  have hsucc : ∀ k, hostKey a (k + 1) = hostKey b (k + 1) ↔
      cut a (9 - 3 * k) = cut b (9 - 3 * k) := fun k => by simp [hostKey, systemId_inj]
  rw [show List.range 4 = [0, 0 + 1, 1 + 1, 2 + 1] from rfl, hostLevel]
  simp only [List.find?_cons, hzero, hsucc, List.find?_nil]
  split_ifs <;> simp_all

/-- The level is the first at which two hosts have a component in common. -/
lemma hostLevel_eq_some : hostLevel a b = some k ↔
    k ≤ 3 ∧ hostKey a k = hostKey b k ∧ ∀ j < k, hostKey a j ≠ hostKey b j := by
  rw [hostLevel_eq, List.find?_range_eq_some]
  simp only [decide_eq_true_eq, List.mem_range, Bool.not_eq_true', decide_eq_false_iff_not]
  constructor
  · rintro ⟨hk, hlt, hfirst⟩
    exact ⟨by omega, hk, hfirst⟩
  · rintro ⟨hle, hk, hfirst⟩
    exact ⟨hk, by omega, hfirst⟩

lemma hostLevel_eq_none : hostLevel a b = none ↔ ∀ k ≤ 3, hostKey a k ≠ hostKey b k := by
  rw [hostLevel_eq, List.find?_range_eq_none]
  simp only [Bool.not_eq_true', decide_eq_false_iff_not]
  exact forall_congr' fun k => imp_congr_left (by omega)

end

section

variable {sources : List ModuleSource} {source : MpiSource} {place : Fin source.nbproc → Key}
  (h : SourcesOk sources) {sm : SupermucSource} (hsm : .superMUC sm ∈ sources)
  {a b : String} (ha : a ∈ sm.hostnames) (hb : b ∈ sm.hostnames)

include h hsm ha hb

/-- **Where two machines meet**: in the first component they have in common. -/
lemma meet_hostKey (hcheck : sm.check = true) {k : ℕ} (hlevel : hostLevel a b = some k) :
    Meet (Topology.ofModules n sources source place).Child (machineKey a) (machineKey b)
      (hostKey a k) k k := by
  have hlength : ∀ {s : String}, s ∈ sm.hostnames → s.length = 12 := fun hs =>
    followsConvention_length (h.hostnames sm hsm _ hs)
  obtain ⟨hk, hcommon, hfirst⟩ := hostLevel_eq_some.mp hlevel
  have hup : ∀ {s : String}, s ∈ sm.hostnames → ∀ {j i : ℕ}, j + i ≤ 3 →
      Below (Topology.ofModules n sources source place).Child (hostKey s (j + i)) i
        (hostKey s j) := fun hs _ _ hji => h.below_hostKey hsm hcheck hs hji
  refine ⟨?_, ?_, fun w i j hi hj => ?_⟩
  · have hup' := hup ha (j := 0) (i := k) (by omega)
    rwa [zero_add] at hup'
  · have hup' := hup hb (j := 0) (i := k) (by omega)
    rwa [zero_add, ← hcommon] at hup'
  · obtain ⟨hi3, hwa⟩ := h.above_hostKey (hlength ha) (k := 0) (by omega) hi
    obtain ⟨hj3, hwb⟩ := h.above_hostKey (hlength hb) (k := 0) (by omega) hj
    rw [zero_add] at hwa hwb hi3 hj3
    obtain rfl := hostKey_level (hlength ha) (hlength hb) hi3 hj3 (hwa.symm.trans hwb)
    have hki : k ≤ i := by
      by_contra hlt
      exact hfirst i (by omega) (hwa.symm.trans hwb)
    refine ⟨i - k, ?_⟩
    have hup' := hup ha (j := k) (i := i - k) (by omega)
    rw [show k + (i - k) = i by omega] at hup'
    rwa [hwa]

/-- Machines with no component in common have nothing above them in common. -/
lemma not_above_hostKey (hlevel : hostLevel a b = none) {w : Key} {i j : ℕ}
    (hi : Below (Topology.ofModules n sources source place).Child w i (machineKey a)) :
    ¬ Below (Topology.ofModules n sources source place).Child w j (machineKey b) := by
  intro hj
  have hlength : ∀ {s : String}, s ∈ sm.hostnames → s.length = 12 := fun hs =>
    followsConvention_length (h.hostnames sm hsm _ hs)
  obtain ⟨hi3, hwa⟩ := h.above_hostKey (hlength ha) (k := 0) (by omega) hi
  obtain ⟨hj3, hwb⟩ := h.above_hostKey (hlength hb) (k := 0) (by omega) hj
  rw [zero_add] at hwa hwb hi3 hj3
  obtain rfl := hostKey_level (hlength ha) (hlength hb) hi3 hj3 (hwa.symm.trans hwb)
  exact hostLevel_eq_none.mp hlevel i hi3 (hwa.symm.trans hwb)

end

/-! ### The graph -/

section

variable {φ : Key → Option VertexT} {g : Graph n} {T : Topology n} {k k' : Key}
  {u v : VertexT} {i j : ℕ}

/-- What is above the vertex of a key. -/
lemma Represents.below_iff (h : Represents φ g T) (hu : φ k = some u) :
    Below g.Child v i u ↔ ∃ k', φ k' = some v ∧ Below T.Child k' i k := by
  induction i generalizing k u with
  | zero =>
      constructor
      · intro hbelow
        rw [hbelow.eq_of_zero]
        exact ⟨k, hu, .refl⟩
      · rintro ⟨k', hk', hbelow⟩
        rw [hbelow.eq_of_zero, hu] at hk'
        rw [Option.some.inj hk']
        exact .refl
  | succ i ih =>
      constructor
      · intro hbelow
        cases hbelow with
        | step hbelow hstep =>
            obtain ⟨a, b, ha, hb, hab⟩ := h.exists_of_step hstep
            obtain rfl := h.inj _ _ _ hb hu
            obtain ⟨k', hk', hbelow'⟩ := (ih ha).mp hbelow
            exact ⟨k', hk', hbelow'.step hab⟩
      · rintro ⟨k', hk', hbelow⟩
        cases hbelow with
        | @step _ a _ hbelow hstep =>
            obtain ⟨⟨w, hw⟩, -⟩ := h.ends _ hstep
            exact .step ((ih hw).mpr ⟨k', hk', hbelow⟩) ((h.step_iff hw hu).mpr hstep)

/-- Vertices meet where their keys do. -/
lemma Represents.meet (h : Represents φ g T) {c : Key} (hmeet : Meet T.Child k k' c i j)
    (hu : φ k = some u) (hv : φ k' = some v) :
    ∃ w, φ c = some w ∧ Meet g.Child u v w i j := by
  obtain ⟨w, hw⟩ : ∃ w, φ c = some w := by
    have hplaced : ∀ {i : ℕ} {k : Key}, Below T.Child c i k → (∃ u, φ k = some u) →
        ∃ w, φ c = some w := by
      intro i k hbelow hk
      induction hbelow with
      | refl => exact hk
      | step _ hstep ih => exact ih (h.ends _ hstep).1
    exact hplaced hmeet.left ⟨u, hu⟩
  refine ⟨w, hw, (h.below_iff hu).mpr ⟨c, hw, hmeet.left⟩,
    (h.below_iff hv).mpr ⟨c, hw, hmeet.right⟩, fun w' i' j' hi' hj' => ?_⟩
  obtain ⟨c', hc', hleft⟩ := (h.below_iff hu).mp hi'
  obtain ⟨c'', hc'', hright⟩ := (h.below_iff hv).mp hj'
  obtain rfl := h.inj _ _ _ hc' hc''
  obtain ⟨m, hm⟩ := hmeet.lowest c' i' j' hleft hright
  exact ⟨m, (h.below_iff hw).mpr ⟨c', hc', hm⟩⟩

end

lemma wideSystem_run : ∃ g : Graph 2,
    runSources .insertion ([.superMUC wideSystem, .hwloc smallMachine] ++ [.mpi wideRanks]) {} =
      .ok g ∧ ∀ e ∈ g.edges, e.label ≠ .gpuInterconnect := by
  obtain ⟨g, hrun, -⟩ := wideSystem_sourcesOk.exists_runMpi (n := 2) .insertion wideRanks
  have hlinks : (runSources .insertion ([.superMUC wideSystem, .hwloc smallMachine] ++
      [.mpi wideRanks]) {}).toOption.map
        (fun g : Graph 2 => g.edges.all fun e => decide (e.label ≠ .gpuInterconnect)) =
      some true := by decide +kernel
  rw [hrun] at hlinks
  simp only [Except.toOption, Option.map_some, Option.some.injEq, List.all_eq_true,
    decide_eq_true_eq] at hlinks
  exact ⟨g, hrun, hlinks⟩

/-! ### Distances between hosts -/

section

variable {sources : List ModuleSource} {S : StdSort VertexT} {source : MpiSource} {g : Graph n}

/-- What a run without linked GPUs leaves. -/
lemma SourcesOk.tree_of_run (h : SourcesOk sources)
    (hrun : runSources S (sources ++ [.mpi source]) {} = .ok g)
    (hlinks : ∀ e ∈ g.edges, e.label ≠ .gpuInterconnect) :
    g.TopologyShape ∧ g.TreeEdges ∧ (∀ e ∈ g.edges, e.target < g.numVertices) ∧
      ∃ φ place, Represents φ g (Topology.ofModules n sources source place) ∧
        (source.initialized = true → ∀ i, ∃ r,
          Placement source (Topology.ofModules n sources source place) r i (place i)) := by
  obtain ⟨hshape, htree, hends⟩ := h.treeShape hrun hlinks
  obtain ⟨φ, φ', g₀, place, -, -, -, hadv, -, -, hplace⟩ := runMpi_advance h.first hrun
  refine ⟨hshape, htree, hends, φ', place, hadv.rep, fun hinit i => ?_⟩
  obtain ⟨r, -, hr⟩ := hplace hinit i
  exact ⟨r, hr⟩

/-- The distance of vertices below two machines. -/
lemma SourcesOk.hops_below (h : SourcesOk sources) {φ : Key → Option VertexT}
    {place : Fin source.nbproc → Key} (hshape : g.TopologyShape) (htree : g.TreeEdges)
    (hends : ∀ e ∈ g.edges, e.target < g.numVertices)
    (hrep : Represents φ g (Topology.ofModules n sources source place))
    {sm : SupermucSource} (hsm : .superMUC sm ∈ sources) (hcheck : sm.check = true) {a b : String}
    (ha : a ∈ sm.hostnames) (hb : b ∈ sm.hostnames) (hab : a ≠ b) {machineA machineB : VertexT}
    (hA : φ (machineKey a) = some machineA) (hB : φ (machineKey b) = some machineB) {i j : ℕ}
    {u v : VertexT} (hu : Below g.Child machineA i u) (hv : Below g.Child machineB j v) :
    (bfsDistances g u)[v]? = some ((hostLevel a b).elim 0 fun k => (i + 2 * k + j : ℤ)) ∧
      ((∃ p, g.Path u p v) ↔ (hostLevel a b).isSome = true) := by
  have hlt : ∀ {m w : VertexT} {k : Key} {i : ℕ}, φ k = some m → Below g.Child m i w →
      w < g.numVertices := by
    intro m w k i hk hbelow
    cases hbelow with
    | refl => exact hrep.lt _ _ hk
    | step _ hstep => exact hends _ hstep
  have hdist := hshape.bfsDistances_meet htree hends (hlt hA hu) (hlt hB hv)
  rw [hshape.exists_path_iff htree]
  cases hlevel : hostLevel a b with
  | some k =>
      obtain ⟨w, -, hmeet⟩ := hrep.meet (meet_hostKey h hsm ha hb hcheck hlevel) hA hB
      have hk : k ≠ 0 := by
        rintro rfl
        have hkey := (hostLevel_eq_some.mp hlevel).2.1
        exact hab (machineId_inj.mp (Key.name.inj hkey))
      have hbelow := hmeet.below hshape.forest hk hk hu hv
      refine ⟨?_, iff_of_true ⟨w, _, _, hbelow⟩ rfl⟩
      rw [hdist.1 _ _ _ hbelow, Option.elim_some]
      push_cast
      congr 1
      ring
  | none =>
      have hnone : ¬ ∃ w i j, Meet g.Child u v w i j := by
        rintro ⟨w, i', j', hmeet⟩
        -- something would be above both machines
        have habove : ∃ w, (∃ k, Below g.Child w k machineA) ∧ ∃ k, Below g.Child w k machineB := by
          rcases hshape.forest.above_both hu hv hmeet.left hmeet.right with hw | hk | hk
          · exact ⟨w, hw⟩
          · exact ⟨machineA, ⟨0, .refl⟩, hk⟩
          · exact ⟨machineB, hk, 0, .refl⟩
        obtain ⟨w', ⟨k, hk⟩, l, hl⟩ := habove
        obtain ⟨c, hc, hleft⟩ := (hrep.below_iff hA).mp hk
        obtain ⟨c', hc', hright⟩ := (hrep.below_iff hB).mp hl
        obtain rfl := hrep.inj _ _ _ hc hc'
        exact not_above_hostKey h hsm ha hb hlevel hleft hright
      exact ⟨hdist.2 hnone, iff_of_false hnone (by simp)⟩

/-- **How far hosts are apart**: vertices below the machines of two hosts are as far from
one another as they are from their machines, and the machines from what they have in
common, together. Hosts of different islands are not connected, and their distance is
reported as zero. -/
theorem bfsDistances_hosts (h : SourcesOk sources)
    (hrun : runSources S (sources ++ [.mpi source]) {} = .ok g)
    (hlinks : ∀ e ∈ g.edges, e.label ≠ .gpuInterconnect) {sm : SupermucSource}
    (hsm : .superMUC sm ∈ sources) (hcheck : sm.check = true) {a b : String}
    (ha : a ∈ sm.hostnames) (hb : b ∈ sm.hostnames) (hab : a ≠ b) :
    ∃ machineA machineB, g.lookup (machineId a) = some machineA ∧
      g.lookup (machineId b) = some machineB ∧ ∀ i j u v, Below g.Child machineA i u →
        Below g.Child machineB j v →
          (bfsDistances g u)[v]? = some ((hostLevel a b).elim 0 fun k => (i + 2 * k + j : ℤ)) ∧
          ((∃ p, g.Path u p v) ↔ (hostLevel a b).isSome = true) := by
  obtain ⟨hshape, htree, hends, φ, place, hrep, -⟩ := h.tree_of_run hrun hlinks
  have hmachine : ∀ {s : String}, s ∈ sm.hostnames → ∃ v, φ (machineKey s) = some v := by
    intro s hs
    exact (hrep.ends _ (h.child_of_arc hsm hcheck hs (@SupermucArc.columnSlot s))).2
  obtain ⟨machineA, hA⟩ := hmachine ha
  obtain ⟨machineB, hB⟩ := hmachine hb
  exact ⟨machineA, machineB, by rw [hrep.ids, hA], by rw [hrep.ids, hB], fun i j u v hu hv =>
    h.hops_below hshape htree hends hrep hsm hcheck ha hb hab hA hB hu hv⟩

theorem bfsDistances_hosts_wideSystem : ∃ g : Graph 2,
    runSources .insertion ([.superMUC wideSystem, .hwloc smallMachine] ++ [.mpi wideRanks]) {} =
      .ok g ∧
    ∃ machineA machineB, g.lookup (machineId "i01r01c01s01") = some machineA ∧
      g.lookup (machineId "i01r02c01s01") = some machineB ∧
      ∀ i j u v, Below g.Child machineA i u → Below g.Child machineB j v →
        (bfsDistances g u)[v]? = some ((hostLevel "i01r01c01s01" "i01r02c01s01").elim 0 fun k =>
          (i + 2 * k + j : ℤ)) ∧
        ((∃ p, g.Path u p v) ↔ (hostLevel "i01r01c01s01" "i01r02c01s01").isSome = true) := by
  obtain ⟨g, hrun, hlinks⟩ := wideSystem_run
  have hsm : ModuleSource.superMUC wideSystem ∈ [.superMUC wideSystem, .hwloc smallMachine] :=
    List.mem_cons_self
  exact ⟨g, hrun, bfsDistances_hosts wideSystem_sourcesOk hrun hlinks hsm (by decide) (by decide)
    (by decide) (by decide)⟩

/-- Hosts of different racks have the island in common. -/
example : hostLevel "i01r01c01s01" "i01r02c01s01" = some 3 := by decide

/-- A rank on another host hangs below its machine. -/
lemma rank_below_machine {φ : Key → Option VertexT} {place : Fin source.nbproc → Key}
    (hrep : Represents φ g (Topology.ofModules n sources source place))
    (hinit : source.initialized = true) {i : Fin source.nbproc}
    (hi : source.hostnames i ≠ source.hostname) {r : Key}
    (hr : Placement source (Topology.ofModules n sources source place) r i (place i)) :
    ∃ m u, φ (machineKey (source.hostnames i)) = some m ∧ φ (mpiRankKey i) = some u ∧
      g.Child m u := by
  have hnone : source.localMask n i = none := by
    rw [MpiSource.localMask, if_neg hi]
  have hop : .child (machineKey (source.hostnames i)) (mpiRankKey i) ∈
      (sourcesOps 0 sources ++ source.ops place : List (TopologyOp n)) := by
    refine List.mem_append_right _ ?_
    rw [MpiSource.ops, if_pos hinit]
    refine List.mem_flatMap.mpr ⟨i, List.mem_finRange i, ?_⟩
    rw [hr.machine hnone]
    simp
  have hchild := Topology.child_of_mem (T := Keyed.empty) hop
  obtain ⟨⟨m, hm⟩, u, hu⟩ := hrep.ends _ hchild
  exact ⟨m, u, hm, hu, (hrep.step_iff hm hu).mpr hchild⟩

/-- **How far ranks are apart** depends only on the names of their hosts, for ranks that are
not on the host of the process: the graphs of all processes on other hosts agree. -/
theorem bfsDistances_ranks (h : SourcesOk sources)
    (hrun : runSources S (sources ++ [.mpi source]) {} = .ok g)
    (hlinks : ∀ e ∈ g.edges, e.label ≠ .gpuInterconnect) {sm : SupermucSource}
    (hsm : .superMUC sm ∈ sources) (hcheck : sm.check = true)
    (hinit : source.initialized = true) (hgathered : ∀ i, source.hostnames i ∈ sm.hostnames)
    {i j : Fin source.nbproc} (hij : i ≠ j) (hi : source.hostnames i ≠ source.hostname)
    (hj : source.hostnames j ≠ source.hostname) :
    ∃ u v, g.lookup (mpiRankId i) = some u ∧ g.lookup (mpiRankId j) = some v ∧
      (bfsDistances g u)[v]? = some
        ((hostLevel (source.hostnames i) (source.hostnames j)).elim 0 fun k => (2 * k + 2 : ℤ)) ∧
      ((∃ p, g.Path u p v) ↔
        (hostLevel (source.hostnames i) (source.hostnames j)).isSome = true) := by
  obtain ⟨hshape, htree, hends, φ, place, hrep, hplace⟩ := h.tree_of_run hrun hlinks
  obtain ⟨r, hr⟩ := hplace hinit i
  obtain ⟨r', hr'⟩ := hplace hinit j
  obtain ⟨machineI, u, hmachineI, hu, hchildI⟩ := rank_below_machine hrep hinit hi hr
  obtain ⟨machineJ, v, hmachineJ, hv, hchildJ⟩ := rank_below_machine hrep hinit hj hr'
  refine ⟨u, v, by rw [hrep.ids, hu], by rw [hrep.ids, hv], ?_⟩
  by_cases hab : source.hostnames i = source.hostnames j
  · -- both hang below one machine
    have hlevel : hostLevel (source.hostnames i) (source.hostnames j) = some 0 := by
      rw [hostLevel, if_pos hab]
    rw [hab, hmachineJ, Option.some.injEq] at hmachineI
    subst hmachineI
    have hne : u ≠ v := by
      rintro rfl
      exact hij (Fin.ext (mpiRankId_inj.mp (Key.name.inj (hrep.inj _ _ _ hu hv))))
    have hmeet := hshape.forest.meet_children hchildI hchildJ hne
    rw [hlevel, hshape.exists_path_iff htree]
    refine ⟨?_, iff_of_true ⟨_, _, _, hmeet⟩ rfl⟩
    rw [(hshape.bfsDistances_meet htree hends (hrep.lt _ _ hu) (hrep.lt _ _ hv)).1 _ _ _ hmeet]
    rfl
  · obtain ⟨hdist, hpath⟩ := h.hops_below hshape htree hends hrep hsm hcheck
      (hgathered i) (hgathered j) hab hmachineI hmachineJ (Below.refl.step hchildI)
      (Below.refl.step hchildJ)
    refine ⟨?_, hpath⟩
    rw [hdist]
    cases hostLevel (source.hostnames i) (source.hostnames j) with
    | none => rfl
    | some k =>
        simp only [Option.elim_some, Option.some.injEq]
        push_cast
        ring

theorem bfsDistances_ranks_wideSystem : ∃ g : Graph 2,
    runSources .insertion ([.superMUC wideSystem, .hwloc smallMachine] ++ [.mpi wideRanks]) {} =
      .ok g ∧
    ∃ u v, g.lookup (mpiRankId 1) = some u ∧ g.lookup (mpiRankId 2) = some v ∧
      (bfsDistances g u)[v]? = some
        ((hostLevel "i01r01c01s02" "i01r02c01s01").elim 0 fun k =>
          (2 * k + 2 : ℤ)) ∧
      ((∃ p, g.Path u p v) ↔
        (hostLevel "i01r01c01s02" "i01r02c01s01").isSome = true) := by
  obtain ⟨g, hrun, hlinks⟩ := wideSystem_run
  have hsm : ModuleSource.superMUC wideSystem ∈ [.superMUC wideSystem, .hwloc smallMachine] :=
    List.mem_cons_self
  have hij : (1 : Fin 3) ≠ 2 := by decide
  have hi : wideRanks.hostnames (1 : Fin 3) ≠ wideRanks.hostname := by decide
  have hj : wideRanks.hostnames (2 : Fin 3) ≠ wideRanks.hostname := by decide
  have hdist := bfsDistances_ranks wideSystem_sourcesOk hrun hlinks hsm (by decide) rfl
    (by decide) hij hi hj
  exact ⟨g, hrun, hdist⟩

end

end Yloc
