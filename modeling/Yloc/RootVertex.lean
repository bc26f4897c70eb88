import Yloc.Shape

/-!
The root vertex after `init`.

The root vertex is the first vertex of the graph until hwloc sets it, and `init`
looks at no status. So it is the machine of the local host when hwloc succeeds, and
otherwise only if the first vertex that the modules add happens to be that machine
(`LocalRoot`).

* `FirstVertex`: what the first vertex is after a module, or a run of them, on a
  graph without vertices.
* `Topology.child_cases`: where CHILD edges lead; below the local machine there is
  no other machine, and below another machine there are only MPI processes.
* `usableRoot_iff`: when `init` leaves a usable root vertex (`UsableRoot`).
-/

namespace Yloc

open Relation

variable {n : ℕ}

/-! ### The condition -/

namespace ModuleSource

/-- The module adds a vertex at all. -/
def addsVertex : ModuleSource → Bool
  | hwloc source => source.checkHwlocApiVersion == .success
  | mpi source => source.initialized && decide (0 < source.nbproc)
  | superMUC source => source.check && !source.hostnames.isEmpty
  | rocm source => !source.devices.isEmpty
  | nvml source => !source.devices.isEmpty

/-- The module goes through the ranks, and rank 0 runs on the host `hostname`. -/
def rankZeroOn (hostname : String) : ModuleSource → Bool
  | mpi source =>
      (List.finRange source.nbproc).head?.any fun i => source.hostnames i == hostname
  | superMUC source => source.hostnames.head?.any (· == hostname)
  | _ => false

end ModuleSource

/-- hwloc succeeds, or the first module that adds a vertex goes through the ranks and
rank 0 runs on the local host. -/
def LocalRoot (sources : List ModuleSource) (hostname : String) : Prop :=
  (∃ hw, .hwloc hw ∈ sources ∧ hw.checkHwlocApiVersion = .success) ∨
  ∃ m, sources.find? ModuleSource.addsVertex = some m ∧ m.rankZeroOn hostname = true

/-- The root vertex exists and is the machine `hostname`, and searches stay in range
and away from other hosts. -/
structure UsableRoot (g : Graph n) (hostname : String) : Prop where
  lt : g.mRootVertex < g.numVertices
  bound : g.lookup (machineId hostname) = some g.mRootVertex
  inRange : ∀ S mask, lowestContainingVertex S g mask ≠ .error .outOfRange
  result_lt : ∀ S mask v, lowestContainingVertex S g mask = .ok v → v < g.numVertices
  ofHost : ∀ S mask v, lowestContainingVertex S g mask = .ok v → ∀ hostname' machineVd,
    hostname' ≠ hostname → g.lookup (machineId hostname') = some machineVd →
      ¬ ReflTransGen g.Child machineVd v

/-! ### The first vertex -/

/-- What the first vertex is after the module `m` on a graph without vertices. -/
structure FirstVertex (m : ModuleSource) (g : Graph n) : Prop where
  empty : m.addsVertex = false → g.numVertices = 0
  pos : m.addsVertex = true → 0 < g.numVertices
  machine : m.addsVertex = true → ∀ hostname,
    g.lookup (machineId hostname) = some 0 ↔ m.rankZeroOn hostname = true

section

variable {φ φ' : Key → Option VertexT} {g g' : Graph n} {T T' : Topology n}

/-- A graph without vertices binds no identifier. -/
lemma Represents.place_eq_none (h : Represents φ g T) (hempty : g.numVertices = 0) (k : Key) :
    φ k = none := by
  cases hk : φ k with
  | none => rfl
  | some v =>
      have hv : v < g.numVertices := h.lt k v hk
      rw [hempty] at hv
      exact absurd hv (Nat.not_lt_zero v)

/-- The first vertex added for an identifier is number zero. -/
lemma Represents.addVertexId_zero (h : Represents φ g T) (hempty : g.numVertices = 0)
    (id : Identifier) : (g.addVertexId id).1 = 0 := by
  have hid : g.lookup id = none := by
    rw [h.ids]
    exact h.place_eq_none hempty _
  rw [Graph.addVertexId_of_none hid]
  exact hempty

/-- What is bound to vertex zero stays the same. -/
lemma Represents.lookup_zero_iff (h : Represents φ g T) (h' : Represents φ' g' T')
    (hext : Extends φ φ') (hpos : 0 < g.numVertices) (id : Identifier) :
    g'.lookup id = some 0 ↔ g.lookup id = some 0 := by
  obtain ⟨k, hk⟩ := h.surj 0 hpos
  rw [h.ids, h'.ids]
  constructor
  · intro hid
    rwa [h'.inj _ _ _ hid (hext _ _ hk)]
  · exact hext _ _

/-- The first vertex stays what it is. -/
lemma FirstVertex.extend {m : ModuleSource} (hm : FirstVertex m g) (hadds : m.addsVertex = true)
    (h : Represents φ g T) (h' : Represents φ' g' T') (hext : Extends φ φ') :
    FirstVertex m g' where
  empty hnone := by
    rw [hadds] at hnone
    cases hnone
  pos _ := by
    obtain ⟨k, hk⟩ := h.surj 0 (hm.pos hadds)
    exact h'.lt k 0 (hext k 0 hk)
  machine _ hostname := by
    rw [h.lookup_zero_iff h' hext (hm.pos hadds), hm.machine hadds]

/-- Where vertex zero is a machine it is the one of rank 0. -/
lemma Represents.lookup_machine_iff (h : Represents φ g T) {hostname : String}
    (hzero : φ (machineKey hostname) = some 0) (hostname' : String) :
    g.lookup (machineId hostname') = some 0 ↔ hostname = hostname' := by
  rw [h.ids]
  constructor
  · intro hid
    exact machineId_inj.mp (Key.name.inj (h.inj _ _ _ hzero hid))
  · rintro rfl
    exact hzero

/-- After operations on PCI devices only, vertex zero is no machine. -/
lemma Represents.lookup_of_bdfids (h : Represents φ g T) (hempty : g.numVertices = 0)
    {ops : List (TopologyOp n)} (h' : Represents φ' g' (T.run ops))
    (hops : ∀ k ∈ ops.filterMap TopologyOp.putKey, ∃ b, k = bdfidKey b) {k : Key}
    (hk : k ∈ ops.filterMap TopologyOp.putKey) :
    0 < g'.numVertices ∧ ∀ hostname, g'.lookup (machineId hostname) ≠ some 0 := by
  obtain ⟨v, hv⟩ := h'.exists_place (Topology.run_info_isSome.mpr (.inr hk))
  refine ⟨Nat.zero_lt_of_lt (h'.lt _ _ hv), fun hostname hid => ?_⟩
  have hsome : ((T.run ops).info (machineKey hostname)).isSome := by
    rw [h'.ids] at hid
    rw [h'.info_vertex hid]
    rfl
  rcases Topology.run_info_isSome.mp hsome with hT | hmem
  · rw [h.info_eq_none_iff.mpr (h.place_eq_none hempty _)] at hT
    cases hT
  · obtain ⟨b, hb⟩ := hops _ hmem
    exact machineId_ne_bdfidId _ _ (Key.name.inj hb)

/-- A module that leaves the graph as it was adds no vertex. -/
lemma FirstVertex.of_empty {m : ModuleSource} (hadds : m.addsVertex = false)
    (hempty : g.numVertices = 0) : FirstVertex m g where
  empty _ := hempty
  pos h := by
    rw [hadds] at h
    cases h
  machine h := by
    rw [hadds] at h
    cases h

/-- The first vertex after SuperMUC. -/
lemma SupermucSource.firstVertex (source : SupermucSource) (h : Represents φ g T)
    (hempty : g.numVertices = 0) : FirstVertex (.superMUC source) (source.initGraph g).2 := by
  rw [SupermucSource.initGraph_eq]
  cases hcheck : source.check with
  | false => exact .of_empty (by simp [ModuleSource.addsVertex, hcheck]) hempty
  | true =>
      obtain ⟨φ', hadv, hfirst⟩ := makeSupermucGraph_advance h source.hostnames
      cases hnames : source.hostnames with
      | nil =>
          rw [if_pos rfl]
          exact .of_empty (by simp [ModuleSource.addsVertex, hnames]) hempty
      | cons hostname hostnames =>
          rw [hnames] at hadv hfirst
          have hzero : φ' (machineKey hostname) = some 0 := by
            rw [hfirst hostname (by simp), h.addVertexId_zero hempty]
          rw [if_pos rfl]
          refine ⟨fun hadds => ?_, fun _ => hadv.rep.lt _ _ hzero, fun _ hostname' => ?_⟩
          · simp [ModuleSource.addsVertex, hcheck, hnames] at hadds
          · rw [hadv.rep.lookup_machine_iff hzero]
            simp [ModuleSource.rankZeroOn, hnames]

/-- The first vertex after ROCm. -/
lemma RocmSource.firstVertex (source : RocmSource) (h : Represents φ g T)
    (hempty : g.numVertices = 0) : FirstVertex (.rocm source) (source.initGraph g).2 := by
  cases hdevices : source.devices with
  | nil =>
      rw [RocmSource.initGraph, hdevices]
      exact .of_empty (by simp [ModuleSource.addsVertex, hdevices]) hempty
  | cons device devices =>
      obtain ⟨φ', g', hrun, hadv⟩ := source.initGraph_represents h
      have hops : ∀ k ∈ (source.ops : List (TopologyOp n)).filterMap TopologyOp.putKey,
          ∃ b, k = bdfidKey b := by
        intro k hk
        obtain ⟨op, hop, hput⟩ := List.mem_filterMap.mp hk
        rcases RocmSource.mem_ops hop with ⟨b, _, _, -, -, rfl⟩ | ⟨b, b', rfl⟩
        · exact ⟨b, (Option.some.inj hput).symm⟩
        · cases hput
      have hmem : bdfidKey (device.pciId.getD source.bdfid) ∈
          (source.ops : List (TopologyOp n)).filterMap TopologyOp.putKey := by
        rw [RocmSource.ops, hdevices, List.zipIdx_cons, rocmPuts]
        simp [TopologyOp.putKey]
      obtain ⟨hpos, hmachine⟩ := h.lookup_of_bdfids hempty hadv.rep hops hmem
      rw [hrun]
      refine ⟨fun hadds => ?_, fun _ => hpos, fun _ hostname => ?_⟩
      · simp [ModuleSource.addsVertex, hdevices] at hadds
      · simp [hmachine hostname, ModuleSource.rankZeroOn]

/-- The first vertex after NVML. -/
lemma NvmlSource.firstVertex {source : NvmlSource}
    (hpci : ∀ device ∈ source.devices, device.pciInfo.isSome) (h : Represents φ g T)
    (hempty : g.numVertices = 0) {status : YlocStatus} {g' : Graph n}
    (hrun : source.initGraph g = .ok (status, g')) : FirstVertex (.nvml source) g' := by
  cases hdevices : source.devices with
  | nil =>
      rw [NvmlSource.initGraph, hdevices] at hrun
      cases hrun
      exact .of_empty (by simp [ModuleSource.addsVertex, hdevices]) hempty
  | cons device devices =>
      obtain ⟨φ', g₁, hrun₁, hadv⟩ := source.initGraph_represents hpci h
      obtain ⟨-, rfl⟩ := Prod.mk.inj (Except.ok.inj (hrun.symm.trans hrun₁))
      have hops : ∀ k ∈ (source.ops : List (TopologyOp n)).filterMap TopologyOp.putKey,
          ∃ b, k = bdfidKey b := by
        intro k hk
        obtain ⟨op, hop, hput⟩ := List.mem_filterMap.mp hk
        rcases List.mem_append.mp hop with hop | hop
        · obtain ⟨b, device, rfl⟩ := mem_nvmlPuts hop
          exact ⟨b, (Option.some.inj hput).symm⟩
        · obtain ⟨a, -, b, -, rfl⟩ := mem_peerOps hop
          cases hput
      obtain ⟨pci, hpciInfo⟩ :=
        Option.isSome_iff_exists.mp (hpci device (by rw [hdevices]; simp))
      have hmem : bdfidKey (bdfidGet pci) ∈
          (source.ops : List (TopologyOp n)).filterMap TopologyOp.putKey := by
        have hkey : nvmlKey device = some (bdfidKey (bdfidGet pci)) := by
          rw [nvmlKey, hpciInfo]
          rfl
        rw [NvmlSource.ops, nvmlPuts, hdevices, List.filterMap_cons, hkey]
        simp [TopologyOp.putKey]
      obtain ⟨hpos, hmachine⟩ := h.lookup_of_bdfids hempty hadv.rep hops hmem
      refine ⟨fun hadds => ?_, fun _ => hpos, fun _ hostname => ?_⟩
      · simp [ModuleSource.addsVertex, hdevices] at hadds
      · simp [hmachine hostname, ModuleSource.rankZeroOn]

/-- The first vertex after MPI. -/
lemma MpiSource.firstVertex (hok : MpiOk φ g T) (hempty : g.numVertices = 0)
    {S : StdSort VertexT} {source : MpiSource} {status : YlocStatus} {g' : Graph n}
    (hrun : source.initGraph S g = .ok (status, g')) : FirstVertex (.mpi source) g' := by
  obtain ⟨φ', place, hadv, -, hfirst, -⟩ := MpiSource.initGraph_advance hok hrun
  cases hinit : source.initialized with
  | false =>
      rw [MpiSource.initGraph_eq, hinit] at hrun
      cases hrun
      exact .of_empty (by simp [ModuleSource.addsVertex, hinit]) hempty
  | true =>
      cases hhead : (List.finRange source.nbproc).head? with
      | none =>
          have hzero : source.nbproc = 0 := by simpa using hhead
          have hranks : (List.finRange source.nbproc) = [] := List.head?_eq_none_iff.mp hhead
          rw [MpiSource.initGraph_eq, hinit, if_pos rfl, makeMpiGraph, hranks] at hrun
          cases hrun
          exact .of_empty (by simp [ModuleSource.addsVertex, hzero]) hempty
      | some i =>
          have hzero : φ' (machineKey (source.hostnames i)) = some 0 := by
            rw [hfirst hinit i hhead, hok.rep.addVertexId_zero hempty]
          refine ⟨fun hadds => ?_, fun _ => hadv.rep.lt _ _ hzero, fun _ hostname => ?_⟩
          · have hpos : 0 < source.nbproc := Nat.zero_lt_of_lt i.isLt
            simp [ModuleSource.addsVertex, hinit, hpos] at hadds
          · rw [hadv.rep.lookup_machine_iff hzero]
            simp [ModuleSource.rankZeroOn, hhead]

/-- The first vertex after a module of order FIRST other than hwloc. -/
lemma ModuleSource.firstVertex {source : ModuleSource} (hfirst : source.IsFirst)
    (hhwloc : ∀ hw, source = .hwloc hw → hw.checkHwlocApiVersion ≠ .success)
    (h : Represents φ g T) (hempty : g.numVertices = 0) {S : StdSort VertexT}
    {status : YlocStatus} {g' : Graph n} (hrun : source.initGraph S g = .ok (status, g')) :
    FirstVertex source g' := by
  cases source with
  | hwloc source =>
      have hversion := hhwloc source rfl
      rw [ModuleSource.initGraph, HwlocSource.initGraph, if_pos hversion] at hrun
      cases hrun
      exact .of_empty (by simpa [ModuleSource.addsVertex] using hversion) hempty
  | mpi source => exact absurd hfirst id
  | superMUC source =>
      have hgraph := source.firstVertex h hempty
      rwa [Except.ok.inj hrun] at hgraph
  | rocm source =>
      have hgraph := source.firstVertex h hempty
      rwa [Except.ok.inj hrun] at hgraph
  | nvml source => exact NvmlSource.firstVertex hfirst h hempty hrun

/-- **The first vertex after a run** is that of the first module that adds one. -/
theorem runSources_firstVertex {S : StdSort VertexT} {sources : List ModuleSource}
    (hfirst : ∀ source ∈ sources, source.IsFirst)
    (hhwloc : ∀ hw, .hwloc hw ∈ sources → hw.checkHwlocApiVersion ≠ .success)
    (h : Represents φ g T) {s : ℕ} (hs : T.FreshFrom s) (hempty : g.numVertices = 0)
    (hrun : runSources S sources g = .ok g') :
    (sources.find? ModuleSource.addsVertex = none → g'.numVertices = 0) ∧
      ∀ m, sources.find? ModuleSource.addsVertex = some m → FirstVertex m g' := by
  induction sources generalizing φ g T s with
  | nil =>
      obtain rfl : g = g' := Except.ok.inj hrun
      exact ⟨fun _ => hempty, fun m hm => by cases hm⟩
  | cons source sources ih =>
      obtain ⟨φ₁, status, g₁, hrun₁, hrep₁, -, -⟩ :=
        source.initGraph_represents S (hfirst source (by simp)) h hs
      have hgraph := ModuleSource.firstVertex (hfirst source (by simp))
        (fun hw heq => hhwloc hw (by simp [heq])) h hempty hrun₁
      have hfirst' : ∀ m ∈ sources, m.IsFirst := fun m hm => hfirst m (List.mem_cons_of_mem _ hm)
      rw [runSources_cons, hrun₁] at hrun
      cases hadds : source.addsVertex with
      | false =>
          rw [List.find?_cons_of_neg (by simp [hadds])]
          exact ih hfirst' (fun hw hmem => hhwloc hw (List.mem_cons_of_mem _ hmem)) hrep₁
            (hs.ops source) (hgraph.empty hadds) hrun
      | true =>
          obtain ⟨φ₂, g₂, hrun₂, hrep₂, hext, -⟩ :=
            runSources_represents S hfirst' hrep₁ (hs.ops source)
          obtain rfl : g₂ = g' := Except.ok.inj (hrun₂.symm.trans hrun)
          rw [List.find?_cons_of_pos hadds]
          refine ⟨(fun hnone => by cases hnone), fun m hm => ?_⟩
          obtain rfl := Option.some.inj hm
          exact hgraph.extend hadds hrep₁ hrep₂ hext

end

/-! ### What is below a machine -/

/-- The key of an object of hwloc. -/
def Key.IsObject (k : Key) : Prop := (∃ b, k = bdfidKey b) ∨ ∃ i, k = .unnamed i

lemma HwlocApi.isObject_of_mem {api : HwlocApi} {s : ℕ} {children : HwlocChildren} {k : Key}
    (h : k ∈ api.hwlocKeys s children) : k.IsObject := by
  rcases HwlocApi.mem_hwlocKeys h with hb | ⟨i, -, hi⟩
  · exact .inl hb
  · exact .inr ⟨i, hi⟩

lemma Key.IsObject.ne_name {k : Key} (h : k.IsObject) {id : Identifier}
    (hid : ∀ b, id ≠ bdfidId b) : k ≠ .name id := by
  rintro rfl
  rcases h with ⟨b, hb⟩ | ⟨i, hi⟩
  · exact hid b (Key.name.inj hb)
  · cases hi

section

variable {sources : List ModuleSource} {source : MpiSource} {place : Fin source.nbproc → Key}
  {hostname : String}

/-- Where the CHILD edges of a run lead: from the local machine or an object to an
object, from a component of the system, or to an MPI process. -/
lemma child_cases (hkinds : (sources.map ModuleSource.kind).Nodup)
    (hhost : ∀ hw, .hwloc hw ∈ sources → hw.hostname = hostname) {s : ℕ} {a b : Key}
    (h : (Topology.run (sourcesOps s sources ++ source.ops place)
      (Keyed.empty : Topology n)).Child a b) :
    (a = machineKey hostname ∨ a.IsObject) ∧ b.IsObject ∨ (∃ name, a = systemKey name) ∨
      ∃ i, b = mpiRankKey i := by
  have hmpi : ∀ op ∈ (source.ops place : List (TopologyOp n)), op = .child a b →
      ∃ i, b = mpiRankKey i := by
    rintro op hop rfl
    rw [MpiSource.ops] at hop
    split at hop
    · obtain ⟨i, -, -, hb⟩ := mem_mpiRankOps hop
      exact ⟨i, hb⟩
    · cases hop
  rcases Topology.child_of_run h with hnone | hop | hop
  · cases hnone
  · rcases List.mem_append.mp hop with hop | hop
    · rcases sourcesOps_childArcs (n := n) hkinds s with hnil | ⟨hw, hmem, harcs⟩
      · rw [← TopologyOp.mem_childArcs, hnil] at hop
        cases hop
      · rw [← TopologyOp.mem_childArcs, harcs, TopologyOp.mem_childArcs] at hop
        have ha : a ∈ hw.allKeys s := (HwlocSource.ops_child hop).subset (by simp)
        have hb : b ∈ hw.api.hwlocKeys s hw.children := by
          rw [← HwlocApi.hwlocOps_childArcs (n := n) s (machineKey hw.hostname)]
          rcases List.mem_cons.mp hop with hop | hop
          · cases hop
          · exact List.mem_map.mpr ⟨_, TopologyOp.mem_childArcs.mpr hop, rfl⟩
        refine .inl ⟨?_, HwlocApi.isObject_of_mem hb⟩
        rcases List.mem_cons.mp ha with rfl | ha
        · rw [hhost hw hmem]
          exact .inl rfl
        · exact .inr (HwlocApi.isObject_of_mem ha)
    · exact .inr (.inr (hmpi _ hop rfl))
  · rcases List.mem_append.mp hop with hop | hop
    · obtain ⟨sm, -, hostname', -, harc⟩ := sourcesOps_childIfNew hop
      exact .inr (.inl harc.source_system)
    · rw [MpiSource.ops] at hop
      split at hop
      · exact absurd hop not_childIfNew_mem_mpiRankOps
      · cases hop

variable (hkinds : (sources.map ModuleSource.kind).Nodup)
  (hhost : ∀ hw, .hwloc hw ∈ sources → hw.hostname = hostname)

include hkinds hhost

/-- Below the local machine there is no other machine. -/
lemma below_localMachine {s : ℕ} {k : Key}
    (h : ReflTransGen (Topology.run (sourcesOps s sources ++ source.ops place)
      (Keyed.empty : Topology n)).Child (machineKey hostname) k) :
    k = machineKey hostname ∨ k.IsObject ∨ ∃ i, k = mpiRankKey i := by
  induction h with
  | refl => exact .inl rfl
  | @tail a b _ hab ih =>
      rcases child_cases hkinds hhost hab with ⟨-, hb⟩ | ⟨name, rfl⟩ | hb
      · exact .inr (.inl hb)
      · rcases ih with ha | ha | ⟨i, ha⟩
        · exact absurd (Key.name.inj ha).symm (machineId_ne_systemId _ _)
        · exact absurd rfl (ha.ne_name fun b => systemId_ne_bdfidId _ b)
        · exact absurd (Key.name.inj ha).symm (mpiRankId_ne_systemId _ _)
      · exact .inr (.inr hb)

/-- Below another machine there are only MPI processes. -/
lemma below_otherMachine {s : ℕ} {hostname' : String} (hne : hostname' ≠ hostname)
    (hleaves : Topology.MpiLeaves (Topology.run (sourcesOps s sources ++ source.ops place)
      (Keyed.empty : Topology n))) {k : Key}
    (h : ReflTransGen (Topology.run (sourcesOps s sources ++ source.ops place)
      (Keyed.empty : Topology n)).Child (machineKey hostname') k) :
    k = machineKey hostname' ∨ ∃ i, k = mpiRankKey i := by
  induction h with
  | refl => exact .inl rfl
  | @tail a b _ hab ih =>
      rcases ih with rfl | ⟨i, rfl⟩
      · rcases child_cases hkinds hhost hab with ⟨ha | ha, -⟩ | ⟨name, ha⟩ | hb
        · exact absurd (machineId_inj.mp (Key.name.inj ha)) hne
        · exact absurd rfl (ha.ne_name fun b => machineId_ne_bdfidId _ b)
        · exact absurd (Key.name.inj ha) (machineId_ne_systemId _ _)
        · exact .inr hb
      · exact absurd rfl (hleaves.leaf _ _ hab i)

/-- **Searches stay on the local host** when the root vertex is the local machine. -/
theorem not_reach_otherMachine {s : ℕ} {φ : Key → Option VertexT} {g : Graph n}
    (hok : MpiOk φ g (Topology.run (sourcesOps s sources ++ source.ops place) Keyed.empty))
    (hroot : φ (machineKey hostname) = some g.mRootVertex) {S : StdSort VertexT}
    {mask : AffinityMask n} {v : VertexT} (hv : lowestContainingVertex S g mask = .ok v)
    {hostname' : String} {machineVd : VertexT} (hne : hostname' ≠ hostname)
    (hmachine : g.lookup (machineId hostname') = some machineVd) :
    ¬ ReflTransGen g.Child machineVd v := by
  intro hreach
  obtain ⟨-, hdescends, -⟩ := lowestContainingVertex_spec hv
  obtain ⟨k, hk, hlocal⟩ := hok.rep.exists_reach hroot
    (Graph.reach_child_of_eligible (Graph.reach_eligible_of_descends hdescends))
  rw [hok.rep.ids] at hmachine
  obtain ⟨k', hk', hother⟩ := hok.rep.exists_reach hmachine hreach
  obtain rfl := hok.rep.inj k k' v hk hk'
  have hnotMpi : k.NotMpi :=
    .of_search hok.rep hok.leaves hroot (machineKey_notMpi hostname) hv hk
  rcases below_otherMachine hkinds hhost hne hok.leaves hother with rfl | ⟨i, hi⟩
  · rcases below_localMachine hkinds hhost hlocal with h | h | ⟨i, hi⟩
    · exact hne (machineId_inj.mp (Key.name.inj h))
    · exact h.ne_name (fun b => machineId_ne_bdfidId _ b) rfl
    · exact hnotMpi i hi
  · exact hnotMpi i hi

end

/-! ### The root vertex after `init` -/

section

variable {sources : List ModuleSource} {source : MpiSource} {hostname : String} {g : Graph n}

/-- The machine of the local host is the root vertex in the cases of `LocalRoot`. -/
lemma root_eq_machine_iff (hfirst : ∀ m ∈ sources, m.IsFirst)
    (hhost : ∀ hw, .hwloc hw ∈ sources → hw.hostname = hostname) {S : StdSort VertexT}
    (hrun : runSources S (sources ++ [.mpi source]) ({} : Graph n) = .ok g) :
    g.lookup (machineId hostname) = some g.mRootVertex ↔
      LocalRoot (sources ++ [.mpi source]) hostname := by
  obtain ⟨φ, φ', g₀, place, hrep, hsources, hroot, hadv, -, -, -⟩ := runMpi_advance hfirst hrun
  rcases hroot with ⟨hw, hmem, hversion, hroot⟩ | ⟨hfails, hroot⟩
  · refine iff_of_true ?_ (.inl ⟨hw, List.mem_append_left _ hmem, hversion⟩)
    rw [hadv.rep.ids, hadv.root]
    rw [hhost hw hmem] at hroot
    exact hadv.keeps _ _ hroot
  · -- hwloc has not set the root vertex
    have hzero : g.mRootVertex = 0 := hadv.root.trans hroot
    obtain ⟨hnone, hsome⟩ := runSources_firstVertex hfirst hfails (Represents.empty (n := n))
      (s := 0) (fun i _ => rfl) rfl hsources
    have hfails' : ¬ ∃ hw, .hwloc hw ∈ sources ++ [.mpi source] ∧
        hw.checkHwlocApiVersion = .success := by
      rintro ⟨hw, hmem, hversion⟩
      rcases List.mem_append.mp hmem with hmem | hmem
      · exact hfails hw hmem hversion
      · cases List.mem_singleton.mp hmem
    rw [hzero, LocalRoot, or_iff_right hfails', List.find?_append]
    cases hfind : sources.find? ModuleSource.addsVertex with
    | some m =>
        have hadds : m.addsVertex = true := List.find?_some hfind
        have hm := (hsome m hfind).extend hadds hrep hadv.rep hadv.keeps
        rw [hm.machine hadds hostname]
        simp
    | none =>
        obtain ⟨status, hmpi⟩ := initGraph_of_runMpi hrun hsources
        have hm := MpiSource.firstVertex (mpiOk_sources hrep (.inr ⟨hfails, hroot⟩))
          (hnone hfind) hmpi
        cases hadds : (ModuleSource.mpi source).addsVertex with
        | true =>
            rw [hm.machine hadds hostname]
            simp [hadds]
        | false =>
            refine iff_of_false (fun hid => ?_) (by simp [hadds])
            rw [hadv.rep.ids] at hid
            have hlt : 0 < g.numVertices := hadv.rep.lt _ _ hid
            rw [hm.empty hadds] at hlt
            exact absurd hlt (lt_irrefl 0)

/-- A run of modules that ends with `ModuleMPI` leaves a usable root vertex in the
cases of `LocalRoot`. -/
theorem usableRoot_iff_of_run (hfirst : ∀ m ∈ sources, m.IsFirst)
    (hkinds : (sources.map ModuleSource.kind).Nodup)
    (hhost : ∀ hw, .hwloc hw ∈ sources → hw.hostname = hostname) {S : StdSort VertexT}
    (hrun : runSources S (sources ++ [.mpi source]) ({} : Graph n) = .ok g) :
    UsableRoot g hostname ↔ LocalRoot (sources ++ [.mpi source]) hostname := by
  rw [← root_eq_machine_iff hfirst hhost hrun]
  refine ⟨fun h => h.bound, fun hbound => ?_⟩
  obtain ⟨φ, φ', g₀, place, -, -, -, hadv, hok, -, -⟩ := runMpi_advance hfirst hrun
  have hroot : φ' (machineKey hostname) = some g.mRootVertex := by rw [← hadv.rep.ids, hbound]
  have hlt : g.mRootVertex < g.numVertices := hadv.rep.lt _ _ hroot
  refine ⟨hlt, hbound, fun S mask => ?_, fun S mask v hv => (lowestContainingVertex_spec hv).1,
    fun S mask v hv hostname' machineVd hne hmachine => ?_⟩
  · exact lowestContainingVertexFrom_ne_outOfRange S mask
      (fun u v huv => (hadv.rep.step_lt huv).2) _ hlt
  · exact not_reach_otherMachine hkinds hhost hok hroot hv hne hmachine

/-- MPI that is not initialised. -/
def absentMpi : MpiSource where
  initialized := false
  hostname := ""
  nbproc := 0
  hostnames i := i.elim0
  cpusets i := i.elim0

lemma runSources_absentMpi (S : StdSort VertexT) (sources : List ModuleSource) (g : Graph n) :
    runSources S (sources ++ [.mpi absentMpi]) g = runSources S sources g := by
  rw [runSources_append]
  cases runSources S sources g <;> rfl

lemma localRoot_absentMpi :
    LocalRoot (sources ++ [.mpi absentMpi]) hostname ↔ LocalRoot sources hostname := by
  have hadds : ¬ (ModuleSource.mpi absentMpi).addsVertex = true := by decide
  have hfind : (sources ++ [ModuleSource.mpi absentMpi]).find? ModuleSource.addsVertex =
      sources.find? ModuleSource.addsVertex := by
    rw [List.find?_append, List.find?_cons_of_neg hadds, List.find?_nil, Option.or_none]
  rw [LocalRoot, LocalRoot, hfind]
  simp

/-- **When `init` leaves a usable root vertex.** Once it returns success, the root
vertex is usable if hwloc is enabled and succeeds, or if the first of the enabled
modules that adds a vertex goes through the ranks and rank 0 runs on the local
host, and in no other case. -/
theorem usableRoot_iff (S : StdSort VertexT) (S' : StdSort Module) {modules : List Module}
    (hkinds : (modules.map fun m => m.source.kind).Nodup)
    (hhost : ∀ m ∈ modules, ∀ hw, m.source = .hwloc hw → hw.hostname = hostname)
    (hrun : init S S' modules ({} : Graph n) = .ok (.success, g)) :
    UsableRoot g hostname ↔
      LocalRoot (enabledSources (sortModules S' modules)) hostname := by
  obtain ⟨g', hloop, heq⟩ := Except.exists_of_map hrun
  obtain rfl : g' = g := (Prod.mk.inj heq).2
  rw [runModules_eq] at hloop
  have hkinds' := enabledSources_kinds_nodup S' hkinds
  have hhost' : ∀ hw, .hwloc hw ∈ enabledSources (sortModules S' modules) →
      hw.hostname = hostname := fun hw hmem =>
    hhost _ (mem_enabledSources.mp hmem) hw rfl
  obtain ⟨firsts, hfirsts, hsources⟩ := exists_firsts S' hkinds
  -- without `ModuleMPI` the run is that with MPI not initialised
  rcases hsources with hsources | ⟨source, hsources⟩
  · rw [hsources] at hloop hkinds' hhost' ⊢
    have hfirst := isFirst_of_runSources hfirsts hloop
    rw [← runSources_absentMpi] at hloop
    rw [← localRoot_absentMpi]
    exact usableRoot_iff_of_run hfirst hkinds' hhost' hloop
  · rw [hsources] at hloop hkinds' hhost' ⊢
    have hfirst : ∀ m ∈ firsts, m.IsFirst := by
      rw [runSources_append] at hloop
      obtain ⟨g₁, hrun₁, -⟩ := Except.exists_of_bind hloop
      exact isFirst_of_runSources hfirsts hrun₁
    rw [List.map_append] at hkinds'
    exact usableRoot_iff_of_run hfirst hkinds'.of_append_left
      (fun hw hmem => hhost' hw (List.mem_append_left _ hmem)) hloop

end

theorem usableRoot_iff_smallMachine :
    ∃ g : Graph 2, init .insertion .insertion
        [⟨.mpi twoRanks, true⟩, ⟨.superMUC smallSystem, false⟩, ⟨.hwloc smallMachine, true⟩] {} =
          .ok (.success, g) ∧ UsableRoot g "i01r01c01s01" := by
  have hsorted : enabledSources (sortModules .insertion
      [⟨.mpi twoRanks, true⟩, ⟨.superMUC smallSystem, false⟩, ⟨.hwloc smallMachine, true⟩]) =
        [.hwloc smallMachine] ++ [.mpi twoRanks] := rfl
  have hok : SourcesOk [.hwloc smallMachine] := by
    refine ⟨by simp [ModuleSource.IsFirst], by simp, fun hw hmem => ?_, by simp⟩
    rw [ModuleSource.hwloc.inj (List.mem_singleton.mp hmem)]
    exact smallMachine_distinctBdfids
  obtain ⟨g, hrun, -⟩ := hok.exists_runMpi (n := 2) .insertion twoRanks
  have hinit : init .insertion .insertion
      [⟨.mpi twoRanks, true⟩, ⟨.superMUC smallSystem, false⟩, ⟨.hwloc smallMachine, true⟩]
        ({} : Graph 2) = .ok (.success, g) := by
    rw [init, runModules_eq, hsorted, hrun]
    rfl
  refine ⟨g, hinit, (usableRoot_iff .insertion .insertion (by decide) ?_ hinit).mpr ?_⟩
  · intro m hm hw heq
    simp only [List.mem_cons, List.not_mem_nil, or_false] at hm
    rcases hm with rfl | rfl | rfl <;> cases heq
    rfl
  · rw [hsorted]
    exact .inl ⟨smallMachine, by simp, by decide⟩

/-- The same machine with a library of another major version. -/
def oldHwloc : HwlocSource := { smallMachine with libraryVersion := 0x10b00 }

/-- `init` returns success without a root vertex when hwloc does not match. -/
theorem not_usableRoot_oldHwloc :
    init .insertion .insertion [⟨.hwloc oldHwloc, true⟩] ({} : Graph 2) = .ok (.success, {}) ∧
      lowestContainingVertex .insertion ({} : Graph 2) .zero = .error .outOfRange ∧
      ¬ UsableRoot ({} : Graph 2) oldHwloc.hostname :=
  ⟨rfl, rfl, fun h => absurd h.lt (lt_irrefl 0)⟩

end Yloc
