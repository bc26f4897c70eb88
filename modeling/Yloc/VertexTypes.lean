import Yloc.GraphView
import Yloc.NvmlAssertion
import Yloc.RootVertex

/-!
The types of vertices after `init`.

Every change that a module makes to a vertex sets its type, or gives it one if it has none
(`ModuleSource.put_typeAt`), and which type goes with which identifier is the same for all
modules: `TypeAt`. The one conflict is that of the device that hwloc takes for a PCI device
and a vendor library for a GPU, and there the library wins in every order.

* `exists_runMpi_of_init`: what `init` runs, with and without `ModuleMPI`.
* `Topology.typeAt_run`: the types that a run leaves.
* `gpuView_iff`: the vertices of the view of GPUs are those of the devices that ROCm and
  NVML report, each once.
-/

namespace Yloc

variable {n : ℕ}

/-- The bdfids under which a module adds GPUs. -/
def ModuleSource.gpuBdfids : ModuleSource → List UInt64
  | rocm source => rocmBdfids source.bdfid source.devices
  | nvml source => source.devices.filterMap fun device => device.pciInfo.map bdfidGet
  | _ => []

/-- The bdfids under which a run of modules adds GPUs. -/
def gpuBdfids (sources : List ModuleSource) : List UInt64 :=
  sources.flatMap ModuleSource.gpuBdfids

/-! ### The types of hwloc -/

/-- The types that `hwloc_2_yloc_type` returns. -/
def hwlocTypes : List Component :=
  [.l1InstructionCache, .l2InstructionCache, .l3InstructionCache, .instructionCache,
    .l1DataCache, .l2DataCache, .l3DataCache, .l4DataCache, .dataCache, .memory, .logicalGPU,
    .logicalAccelerator, .misc, .unknownComponentType, .physicalCore, .logicalCore, .node,
    .bridge, .pciDevice]

lemma HwlocApi.hwloc2YlocType_mem (api : HwlocApi) (obj : HwlocObj) :
    api.hwloc2YlocType obj ∈ hwlocTypes := by
  have hite : ∀ {c : Prop} [Decidable c] {s t : Component}, s ∈ hwlocTypes → t ∈ hwlocTypes →
      (if c then s else t) ∈ hwlocTypes := by
    intro c _ s t hs ht
    split
    · exact hs
    · exact ht
  rw [hwloc2YlocType]
  cases obj.attrs.osdevType <;> repeat' apply hite
  all_goals decide

/-- The one type of PCI devices among them. -/
lemma HwlocApi.hwloc2YlocType_eq {api : HwlocApi} {obj : HwlocObj}
    (h : (api.hwloc2YlocType obj).isA .pciDevice = true) : api.hwloc2YlocType obj = .pciDevice := by
  have hall : ∀ t ∈ hwlocTypes, t.isA .pciDevice = true → t = .pciDevice := by decide
  exact hall _ (api.hwloc2YlocType_mem obj) h

/-- hwloc takes no vertex for an accelerator or an MPI process. -/
lemma not_isA_of_mem_hwlocTypes :
    ∀ t ∈ hwlocTypes, t.isA .accelerator = false ∧ t.isA .mpiProcess = false := by decide

/-! ### Which type goes with which key -/

/-- The vertex of the key `k` may have the type `t`, with GPUs at the bdfids `gpus`. -/
inductive TypeAt (gpus : List UInt64) : Key → Component → Prop where
  | node (hostname : String) : TypeAt gpus (machineKey hostname) .node
  /-- A machine that only `ModuleMPI` names. -/
  | machine (hostname : String) : TypeAt gpus (machineKey hostname) .unknownComponentType
  | system (name : String) : TypeAt gpus (systemKey name) .misc
  | pciDevice (b : UInt64) : TypeAt gpus (bdfidKey b) .pciDevice
  | gpu {b : UInt64} (hb : b ∈ gpus) : TypeAt gpus (bdfidKey b) .gpu
  | object (i : ℕ) {t : Component} (ht : t ∈ hwlocTypes) : TypeAt gpus (.unnamed i) t
  | rank (i : ℕ) : TypeAt gpus (mpiRankKey i) .mpiProcess
  /-- A process before its first change. -/
  | untyped (i : ℕ) : TypeAt gpus (mpiRankKey i) .unknownComponentType

/-- A change of a vertex gives it the type `t`, or does so if it has none. -/
def Assigns (t : Component) (f : Vertex n → Vertex n) : Prop :=
  (∀ x, (f x).mType = t) ∨
    ∀ x, (f x).mType = if x.mType = .unknownComponentType then t else x.mType

section

variable {gpus : List UInt64} {k : Key} {f : Vertex n → Vertex n}

/-- Such a change keeps the types. -/
lemma Assigns.typeAt {t : Component} (hf : Assigns t f) (ht : TypeAt gpus k t) {x : Vertex n}
    (hx : x = {} ∨ TypeAt gpus k x.mType) : TypeAt gpus k (f x).mType := by
  rcases hf with hf | hf
  · rwa [hf]
  · rw [hf]
    split
    · exact ht
    · next hne =>
        rcases hx with rfl | hx
        · exact absurd rfl hne
        · exact hx

/-- The changes of ROCm are at the bdfids of the loop. -/
lemma mem_rocmPuts_bdfids {bdfid : UInt64} {devices : List (RocmDevice × ℕ)} {b : UInt64}
    (h : .put (bdfidKey b) f ∈ rocmPuts bdfid devices) :
    b ∈ rocmBdfids bdfid (devices.map Prod.fst) := by
  induction devices generalizing bdfid with
  | nil => cases h
  | cons device devices ih =>
      rw [List.map_cons, rocmBdfids]
      rcases List.mem_cons.mp h with h | h
      · rw [bdfidId_inj.mp (Key.name.inj (TopologyOp.put.inj h).1)]
        exact List.mem_cons_self
      · exact List.mem_cons_of_mem _ (ih h)

/-- There is a change for each of them. -/
lemma exists_mem_rocmPuts {bdfid : UInt64} {devices : List (RocmDevice × ℕ)} {b : UInt64}
    (hb : b ∈ rocmBdfids bdfid (devices.map Prod.fst)) :
    ∃ device index, .put (bdfidKey b) (contributeRocm device index) ∈
      (rocmPuts bdfid devices : List (TopologyOp n)) := by
  induction devices generalizing bdfid with
  | nil => cases hb
  | cons device devices ih =>
      rw [List.map_cons, rocmBdfids] at hb
      rcases List.mem_cons.mp hb with rfl | hb
      · exact ⟨device.1, device.2, List.mem_cons_self⟩
      · obtain ⟨device', index, hop⟩ := ih hb
        exact ⟨device', index, List.mem_cons_of_mem _ hop⟩

/-- The changes of NVML are at the bdfids of its devices. -/
lemma mem_nvmlPuts_bdfids {devices : List NvmlDevice} {b : UInt64}
    (h : .put (bdfidKey b) f ∈ nvmlPuts devices) :
    b ∈ devices.filterMap fun device => device.pciInfo.map bdfidGet := by
  obtain ⟨device, hdevice, hop⟩ := List.mem_filterMap.mp h
  obtain ⟨k, hk, hput⟩ := Option.map_eq_some_iff.mp hop
  obtain ⟨pci, hpci, rfl⟩ := Option.map_eq_some_iff.mp hk
  refine List.mem_filterMap.mpr ⟨device, hdevice, ?_⟩
  rw [hpci, Option.map_some, bdfidId_inj.mp (Key.name.inj (TopologyOp.put.inj hput).1)]

/-- The root object is a machine. -/
lemma HwlocSource.contributeRoot_mType (source : HwlocSource) (x : Vertex n) :
    (source.contributeRoot x).mType =
      if x.mType = .unknownComponentType then .node else x.mType := by
  have hroot : source.api.hwloc2YlocType source.root = .node := by
    obtain ⟨hicache, hdcache, hmemory⟩ := source.api.not_cache_memory .machine (.inl rfl)
    simp [HwlocApi.hwloc2YlocType, hicache, hdcache, hmemory, HwlocApi.sameType_iff,
      source.root_type]
  rw [contributeRoot, hroot, GraphElement.setTypeIfUnknown]
  split
  · next hx => exact (if_pos (show x.mType = .unknownComponentType from hx)).symm
  · next hx => exact (if_neg (show ¬ x.mType = .unknownComponentType from hx)).symm

/-- **What modules of order FIRST do to the types of vertices.** -/
theorem ModuleSource.put_typeAt {source : ModuleSource} {s : ℕ} (h : .put k f ∈ source.ops s)
    (hgpus : source.gpuBdfids ⊆ gpus) : ∃ t, TypeAt gpus k t ∧ Assigns t f := by
  cases source with
  | hwloc source =>
      rw [ModuleSource.ops] at h
      split at h
      · rcases List.mem_cons.mp h with hop | h
        · cases hop
          exact ⟨.node, .node _, .inr source.contributeRoot_mType⟩
        · rcases HwlocApi.mem_hwlocOps h with ⟨obj, i, -, hop⟩ | ⟨a, b, hop⟩
          · cases hop
            refine ⟨source.api.hwloc2YlocType obj, ?_, .inr (HwlocApi.contribute_mType _ _)⟩
            rw [HwlocApi.hwlocKey]
            split
            · next hpci =>
                rw [HwlocApi.hwloc2YlocType_eq hpci]
                exact .pciDevice _
            · exact .object i (source.api.hwloc2YlocType_mem obj)
          · cases hop
      · cases h
  | mpi source => cases h
  | superMUC source =>
      rw [ModuleSource.ops] at h
      split at h
      · rcases mem_supermucOps h with ⟨hostname, hop⟩ | ⟨name, hop⟩ | ⟨name, b, hop⟩
        · cases hop
          exact ⟨.node, .node _, .inl fun _ => rfl⟩
        · cases hop
          exact ⟨.misc, .system _, .inl fun _ => rfl⟩
        · cases hop
      · cases h
  | rocm source =>
      rcases List.mem_append.mp h with h | h
      · obtain ⟨b, device, index, -, -, hop⟩ := mem_rocmPuts h
        cases hop
        have hb := mem_rocmPuts_bdfids h
        rw [List.zipIdx_map_fst] at hb
        exact ⟨.gpu, .gpu (hgpus hb), .inl fun _ => rfl⟩
      · obtain ⟨a, -, b, -, hop⟩ := mem_peerOps h
        cases hop
  | nvml source =>
      rcases List.mem_append.mp h with h | h
      · obtain ⟨b, device, hop⟩ := mem_nvmlPuts h
        cases hop
        exact ⟨.gpu, .gpu (hgpus (mem_nvmlPuts_bdfids h)), .inl fun _ => rfl⟩
      · obtain ⟨a, -, b, -, hop⟩ := mem_peerOps h
        cases hop

/-- There is a GPU at each of the bdfids. -/
lemma ModuleSource.exists_put_gpu {source : ModuleSource} {b : UInt64}
    (hb : b ∈ source.gpuBdfids) (s : ℕ) :
    ∃ f : Vertex n → Vertex n, .put (bdfidKey b) f ∈ source.ops s ∧ ∀ x, (f x).mType = .gpu := by
  cases source with
  | rocm source =>
      have hb' : b ∈ rocmBdfids source.bdfid (source.devices.zipIdx.map Prod.fst) := by
        rwa [List.zipIdx_map_fst]
      obtain ⟨device, index, hop⟩ := exists_mem_rocmPuts hb'
      exact ⟨_, List.mem_append_left _ hop, fun _ => rfl⟩
  | nvml source =>
      obtain ⟨device, hdevice, hpci⟩ := List.mem_filterMap.mp hb
      obtain ⟨pci, hinfo, rfl⟩ := Option.map_eq_some_iff.mp hpci
      refine ⟨contributeNvml device, List.mem_append_left _ ?_, fun _ => rfl⟩
      refine List.mem_filterMap.mpr ⟨device, hdevice, ?_⟩
      rw [nvmlKey, hinfo]
      rfl
  | _ => cases hb

/-- What `ModuleMPI` changes. -/
lemma MpiSource.mem_ops_put {source : MpiSource} {place : Fin source.nbproc → Key}
    (h : .put k f ∈ (source.ops place : List (TopologyOp n))) :
    (∃ hostname, k = machineKey hostname ∧ f = id) ∨
      ∃ i : Fin source.nbproc, k = mpiRankKey i ∧
        (f = contributeRank i ∨ f = source.contributeMask i) := by
  rw [MpiSource.ops] at h
  split at h
  · obtain ⟨i, -, h⟩ := List.mem_flatMap.mp h
    simp only [mpiPuts, List.mem_append, List.mem_cons, TopologyOp.put.injEq, reduceCtorEq,
      List.not_mem_nil, or_false] at h
    rcases h with ⟨rfl, rfl⟩ | ⟨rfl, rfl⟩ | ⟨rfl, rfl⟩
    · exact .inl ⟨_, rfl, rfl⟩
    · exact .inr ⟨i, rfl, .inl rfl⟩
    · exact .inr ⟨i, rfl, .inr rfl⟩
  · cases h

lemma MpiSource.put_typeAt {source : MpiSource} {place : Fin source.nbproc → Key}
    (h : .put k f ∈ (source.ops place : List (TopologyOp n))) (gpus : List UInt64) :
    ∃ t, TypeAt gpus k t ∧ Assigns t f := by
  -- a change that leaves the type
  have hkeeps : ∀ {f : Vertex n → Vertex n}, (∀ x, (f x).mType = x.mType) →
      Assigns .unknownComponentType f := by
    refine fun hf => .inr fun x => ?_
    rw [hf]
    split
    · next hx => exact hx
    · rfl
  rcases MpiSource.mem_ops_put h with ⟨hostname, rfl, rfl⟩ | ⟨i, rfl, rfl | rfl⟩
  · exact ⟨_, .machine hostname, hkeeps fun _ => rfl⟩
  · exact ⟨_, .rank i, .inl fun _ => rfl⟩
  · exact ⟨_, .untyped i, hkeeps (contributeMask_type source i)⟩

end

/-! ### The types after a run -/

section

variable {sources : List ModuleSource} {source : MpiSource} {place : Fin source.nbproc → Key}

/-- What a run of modules of order FIRST does to the types of vertices. -/
lemma put_typeAt_sources {s : ℕ} {k : Key} {f : Vertex n → Vertex n}
    (h : .put k f ∈ sourcesOps s sources) : ∃ t, TypeAt (gpuBdfids sources) k t ∧ Assigns t f := by
  obtain ⟨m, hmem, s', hop⟩ := mem_sourcesOps h
  exact ModuleSource.put_typeAt hop fun b hb => List.mem_flatMap.mpr ⟨m, hmem, hb⟩

/-- **The types that a run leaves.** -/
theorem Topology.typeAt_run {k : Key} {x : Vertex n}
    (hx : (Topology.run (sourcesOps 0 sources ++ source.ops place) Keyed.empty).info k = some x) :
    TypeAt (gpuBdfids sources) k x.mType := by
  refine Topology.info_run (P := fun k x => TypeAt (gpuBdfids sources) k x.mType)
    (fun k f hf x hx => ?_) (fun k x hx => by cases hx) k x hx
  rcases List.mem_append.mp hf with hf | hf
  · obtain ⟨t, ht, hassigns⟩ := put_typeAt_sources hf
    exact hassigns.typeAt ht hx
  · obtain ⟨t, ht, hassigns⟩ := MpiSource.put_typeAt hf (gpuBdfids sources)
    exact hassigns.typeAt ht hx

/-- Only ranks are MPI processes. -/
lemma TypeAt.rank_of_mpiProcess {gpus : List UInt64} {k : Key} {t : Component}
    (h : TypeAt gpus k t) (htype : t.isA .mpiProcess = true) : ∃ i, k = mpiRankKey i := by
  cases h with
  | rank i => exact ⟨i, rfl⟩
  | untyped i => exact ⟨i, rfl⟩
  | object j ht => rw [(not_isA_of_mem_hwlocTypes t ht).2] at htype; cases htype
  | _ => exact absurd htype (by decide)

/-- What every change of a vertex keeps holds after a run. -/
lemma Topology.info_keeps {Q : Vertex n → Prop} {ops : List (TopologyOp n)} {T : Topology n}
    {k : Key} (hkeeps : ∀ f, .put k f ∈ ops → ∀ x, Q x → Q (f x))
    (hT : ∃ x, T.info k = some x ∧ Q x) : ∃ x, (T.run ops).info k = some x ∧ Q x := by
  induction ops generalizing T with
  | nil => exact hT
  | cons op ops ih =>
      refine ih (fun f hf => hkeeps f (List.mem_cons_of_mem _ hf)) ?_
      obtain ⟨x, hx, hQ⟩ := hT
      rcases op.put_or_info T with ⟨k', f, rfl⟩ | ⟨-, hinfo⟩
      · by_cases hk : k = k'
        · subst hk
          refine ⟨f x, by rw [TopologyOp.put_info_self, hx, Option.getD_some], ?_⟩
          exact hkeeps f List.mem_cons_self x hQ
        · exact ⟨x, by rw [TopologyOp.put_info_of_ne hk, hx], hQ⟩
      · exact ⟨x, by rw [hinfo, hx], hQ⟩

/-- What one change of a vertex establishes and the others keep holds after a run. -/
lemma Topology.info_of_mem {Q : Vertex n → Prop} {ops : List (TopologyOp n)} {T : Topology n}
    {k : Key} {f : Vertex n → Vertex n} (hput : .put k f ∈ ops) (hsets : ∀ x, Q (f x))
    (hkeeps : ∀ f', .put k f' ∈ ops → ∀ x, Q x → Q (f' x)) :
    ∃ x, (T.run ops).info k = some x ∧ Q x := by
  obtain ⟨before, after, rfl⟩ := List.append_of_mem hput
  rw [Topology.run, runOps_append, runOps_cons]
  refine Topology.info_keeps (fun f' hf' => hkeeps f' ?_)
    ⟨_, TopologyOp.put_info_self k f _, hsets _⟩
  exact List.mem_append_right _ (List.mem_cons_of_mem _ hf')

/-- **A GPU stays one**, whatever hwloc says of the device, before or after. -/
lemma Topology.gpu_run (place : Fin source.nbproc → Key) {b : UInt64}
    (hb : b ∈ gpuBdfids sources) :
    ∃ x, (Topology.run (sourcesOps 0 sources ++ source.ops place)
      (Keyed.empty : Topology n)).info (bdfidKey b) = some x ∧ x.mType = .gpu := by
  obtain ⟨m, hmem, hb⟩ := List.mem_flatMap.mp hb
  obtain ⟨s, hsubset⟩ := subset_sourcesOps (n := n) hmem 0
  obtain ⟨f, hput, hsets⟩ := ModuleSource.exists_put_gpu (n := n) hb s
  refine Topology.info_of_mem (List.mem_append_left _ (hsubset hput)) hsets fun f' hf' x hx => ?_
  rcases List.mem_append.mp hf' with hf' | hf'
  · obtain ⟨m', -, s', hop⟩ := mem_sourcesOps hf'
    rcases ModuleSource.ops_bdfid hop with ⟨hw, obj, -, -, -, -, -, rfl⟩ | ⟨device, index, rfl⟩ |
      ⟨device, rfl⟩
    · rw [HwlocApi.contribute_mType, hx]
      rfl
    · rfl
    · rfl
  · rcases MpiSource.mem_ops_put hf' with ⟨hostname, hk, -⟩ | ⟨i, hk, -⟩
    · exact absurd (Key.name.inj hk).symm (machineId_ne_bdfidId _ _)
    · exact absurd (Key.name.inj hk).symm (mpiRankId_ne_bdfidId _ _)

end

/-! ### The types after `init` -/

/-- **What `init` runs**: modules of order FIRST, and `ModuleMPI` after them, or in its place
MPI that is not initialised. -/
theorem exists_runMpi_of_init {S : StdSort VertexT} {S' : StdSort Module} {modules : List Module}
    (hkinds : (modules.map fun m => m.source.kind).Nodup) {status : YlocStatus} {g : Graph n}
    (hrun : init S S' modules ({} : Graph n) = .ok (status, g)) :
    ∃ sources source, runSources S (sources ++ [.mpi source]) ({} : Graph n) = .ok g ∧
      (∀ m ∈ sources, m.IsFirst) ∧ (sources.map ModuleSource.kind).Nodup ∧
      (∀ m, m.initOrder = .first → (m ∈ sources ↔ ⟨m, true⟩ ∈ modules)) ∧
      ∀ source', ⟨.mpi source', true⟩ ∈ modules → source' = source := by
  have hnodup := enabledSources_kinds_nodup S' hkinds
  obtain ⟨g', hloop, heq⟩ := Except.exists_of_map hrun
  obtain rfl : g' = g := (Prod.mk.inj heq).2
  rw [runModules_eq] at hloop
  obtain ⟨firsts, hfirsts, hsources⟩ := exists_firsts S' hkinds
  have hne : ∀ {m source}, m.initOrder = .first → m ≠ ModuleSource.mpi source := by
    rintro m source hm rfl
    cases hm
  rcases hsources with hsources | ⟨source, hsources⟩
  · rw [hsources] at hloop hnodup
    refine ⟨firsts, absentMpi, ?_, isFirst_of_runSources hfirsts hloop, hnodup, fun m _ => ?_,
      fun source' hmem => ?_⟩
    · rwa [runSources_absentMpi]
    · rw [← hsources, mem_enabledSources]
    · rw [← mem_enabledSources (S := S'), hsources] at hmem
      exact absurd (hfirsts _ hmem) fun h => by cases h
  · rw [hsources] at hloop hnodup
    rw [List.map_append] at hnodup
    refine ⟨firsts, source, hloop, ?_, hnodup.of_append_left, fun m hm => ?_,
      fun source' hmem => ?_⟩
    · rw [runSources_append] at hloop
      obtain ⟨g₁, hrun₁, -⟩ := Except.exists_of_bind hloop
      exact isFirst_of_runSources hfirsts hrun₁
    · rw [← mem_enabledSources (S := S'), hsources, List.mem_append, List.mem_singleton,
        or_iff_left (hne hm)]
    · rw [← mem_enabledSources (S := S'), hsources, List.mem_append, List.mem_singleton] at hmem
      rcases hmem with hmem | hmem
      · exact absurd (hfirsts _ hmem) fun h => by cases h
      · exact ModuleSource.mpi.inj hmem

/-- Only GPUs are accelerators. -/
lemma TypeAt.gpu_of_accelerator {gpus : List UInt64} {k : Key} {t : Component}
    (h : TypeAt gpus k t) (ht : t.isA .accelerator = true) :
    t = .gpu ∧ ∃ b ∈ gpus, k = bdfidKey b := by
  cases h with
  | gpu hb => exact ⟨rfl, _, hb, rfl⟩
  | object i hmem => rw [(not_isA_of_mem_hwlocTypes t hmem).1] at ht; cases ht
  | _ => exact absurd ht (by decide)

section

variable {sources : List ModuleSource} {source : MpiSource} {place : Fin source.nbproc → Key}
  {φ : Key → Option VertexT} {g : Graph n}

/-- An accelerator is a GPU that a module has added. -/
lemma Represents.gpu_of_accelerator
    (h : Represents φ g (Topology.run (sourcesOps 0 sources ++ source.ops place) Keyed.empty))
    {v : VertexT} (hv : v ∈ (g.typeView .accelerator).vertexRange) :
    (g.vertex v).mType = .gpu ∧ ∃ b ∈ gpuBdfids sources, g.lookup (bdfidId b) = some v := by
  obtain ⟨hlt, htype⟩ := Graph.mem_typeView.mp hv
  obtain ⟨k, hk⟩ := h.surj v hlt
  obtain ⟨hgpu, b, hb, rfl⟩ :=
    (Topology.typeAt_run (h.info_vertex hk)).gpu_of_accelerator htype
  exact ⟨hgpu, b, hb, (h.ids _).trans hk⟩

/-- There is a GPU for each bdfid. -/
lemma Represents.exists_gpu
    (h : Represents φ g (Topology.run (sourcesOps 0 sources ++ source.ops place) Keyed.empty))
    {b : UInt64} (hb : b ∈ gpuBdfids sources) :
    ∃ v, g.lookup (bdfidId b) = some v ∧ v ∈ (g.typeView .gpu).vertexRange := by
  obtain ⟨x, hx, htype⟩ := Topology.gpu_run (n := n) place hb
  obtain ⟨v, hv⟩ := h.exists_place (Option.isSome_iff_exists.mpr ⟨x, hx⟩)
  have hvertex : x = g.vertex v := Option.some.inj (hx.symm.trans (h.info_vertex hv))
  refine ⟨v, (h.ids _).trans hv, Graph.mem_typeView.mpr ⟨h.lt _ _ hv, ?_⟩⟩
  rw [← hvertex, htype]
  rfl

end

/-- The bdfids of the GPUs are those of the modules of order FIRST. -/
lemma mem_gpuBdfids_enabledSources {modules : List Module} {sources : List ModuleSource}
    (hmem : ∀ m, m.initOrder = .first → (m ∈ sources ↔ ⟨m, true⟩ ∈ modules)) (b : UInt64) :
    b ∈ gpuBdfids (enabledSources modules) ↔ b ∈ gpuBdfids sources := by
  rw [gpuBdfids, gpuBdfids, List.mem_flatMap, List.mem_flatMap]
  refine exists_congr fun m => and_congr_left fun hb => ?_
  have horder : m.initOrder = .first := by
    cases m with
    | mpi source => cases hb
    | _ => rfl
  rw [hmem m horder, enabledSources, List.mem_map]
  constructor
  · rintro ⟨⟨m', enabled⟩, hm', rfl⟩
    obtain ⟨hm', rfl : enabled = true⟩ := List.mem_filter.mp hm'
    exact hm'
  · exact fun h => ⟨_, List.mem_filter.mpr ⟨h, rfl⟩, rfl⟩

/-- **The view of GPUs** after `init`: the vertices of the devices that ROCm and NVML report,
each of them once, in whatever order the modules run and whether or not hwloc finds the
devices. There are no other accelerators. -/
theorem gpuView_iff (S : StdSort VertexT) (S' : StdSort Module) {modules : List Module}
    (hkinds : (modules.map fun m => m.source.kind).Nodup) {status : YlocStatus} {g : Graph n}
    (hrun : init S S' modules ({} : Graph n) = .ok (status, g)) :
    (∀ v, v ∈ (g.typeView .gpu).vertexRange ↔
      ∃ b ∈ gpuBdfids (enabledSources modules), g.lookup (bdfidId b) = some v) ∧
    (g.typeView .accelerator).vertexRange = (g.typeView .gpu).vertexRange ∧
    (g.typeView .gpu).numVerticesView =
      (gpuBdfids (enabledSources modules)).toFinset.card := by
  obtain ⟨sources, source, hrun, hfirst, -, hmem, -⟩ := exists_runMpi_of_init hkinds hrun
  obtain ⟨φ, φ', g₀, place, -, -, -, hadv, -, -, -⟩ := runMpi_advance hfirst hrun
  have hrep := hadv.rep
  have hgpus := mem_gpuBdfids_enabledSources hmem
  have hderived : ∀ c : Component, c.isA .gpu = true → c.isA .accelerator = true := by
    intro c
    cases c <;> decide
  have hview : ∀ v, v ∈ (g.typeView .gpu).vertexRange ↔
      ∃ b ∈ gpuBdfids (enabledSources modules), g.lookup (bdfidId b) = some v := by
    refine fun v => ⟨fun hv => ?_, ?_⟩
    · obtain ⟨hlt, htype⟩ := Graph.mem_typeView.mp hv
      obtain ⟨-, b, hb, hid⟩ :=
        hrep.gpu_of_accelerator (Graph.mem_typeView.mpr ⟨hlt, hderived _ htype⟩)
      exact ⟨b, (hgpus b).mpr hb, hid⟩
    · rintro ⟨b, hb, hid⟩
      obtain ⟨v', hid', hv'⟩ := hrep.exists_gpu ((hgpus b).mp hb)
      rwa [Option.some.inj (hid.symm.trans hid')]
  refine ⟨hview, List.filter_congr fun v hv => ?_, ?_⟩
  · rw [Bool.eq_iff_iff]
    refine ⟨fun htype => ?_, hderived _⟩
    have hmem' : v ∈ (g.typeView .accelerator).vertexRange := List.mem_filter.mpr ⟨hv, htype⟩
    rw [(hrep.gpu_of_accelerator hmem').1]
    rfl
  · -- bdfids and vertices correspond
    let vertexOf : UInt64 → VertexT := fun b => (g.lookup (bdfidId b)).getD 0
    have hof : ∀ b ∈ gpuBdfids (enabledSources modules),
        g.lookup (bdfidId b) = some (vertexOf b) := by
      intro b hb
      obtain ⟨v, hid, -⟩ := hrep.exists_gpu ((hgpus b).mp hb)
      simp only [vertexOf, hid, Option.getD_some]
    have himage : (g.typeView .gpu).vertexRange.toFinset =
        (gpuBdfids (enabledSources modules)).toFinset.image vertexOf := by
      ext v
      simp only [List.mem_toFinset, Finset.mem_image, hview]
      refine exists_congr fun b => and_congr_right fun hb => ?_
      rw [hof b hb, Option.some.injEq]
    have hinj : Set.InjOn vertexOf (gpuBdfids (enabledSources modules)).toFinset := by
      intro b hb b' hb' heq
      rw [Finset.mem_coe, List.mem_toFinset] at hb hb'
      have hids := hof b' hb'
      rw [← heq] at hids
      exact bdfidId_inj.mp (hrep.wellFormed.inj _ _ _ (hof b hb) hids)
    rw [GraphView.numVerticesView_eq, ← Finset.card_image_of_injOn hinj, ← himage,
      List.toFinset_card_of_nodup (g.nodup_typeView .gpu)]

/-- hwloc finds one of the two GPUs of `linkedGpus`. -/
def gpuModules : List Module :=
  [⟨.mpi twoRanks, true⟩, ⟨.rocm linkedGpus, true⟩, ⟨.superMUC smallSystem, false⟩,
    ⟨.hwloc smallMachine, true⟩]

lemma gpuModules_init :
    ∃ g : Graph 2, init .insertion .insertion gpuModules {} = .ok (.success, g) := by
  have hok : SourcesOk [.rocm linkedGpus, .hwloc smallMachine] := by
    refine ⟨by simp [ModuleSource.IsFirst], by decide, fun hw hmem => ?_, by simp⟩
    simp only [List.mem_cons, reduceCtorEq, ModuleSource.hwloc.injEq, List.not_mem_nil, or_false,
      false_or] at hmem
    rw [hmem]
    exact smallMachine_distinctBdfids
  have hsorted : enabledSources (sortModules .insertion gpuModules) =
      [.rocm linkedGpus, .hwloc smallMachine] ++ [.mpi twoRanks] := rfl
  obtain ⟨g, hrun, -⟩ := hok.exists_runMpi (n := 2) .insertion twoRanks
  refine ⟨g, ?_⟩
  rw [init, runModules_eq, hsorted, hrun]
  rfl

theorem gpuView_iff_gpuModules : ∃ g : Graph 2,
    init .insertion .insertion gpuModules {} = .ok (.success, g) ∧
    (∀ v, v ∈ (g.typeView .gpu).vertexRange ↔
      ∃ b ∈ gpuBdfids (enabledSources gpuModules), g.lookup (bdfidId b) = some v) ∧
    (g.typeView .accelerator).vertexRange = (g.typeView .gpu).vertexRange ∧
    (g.typeView .gpu).numVerticesView =
      (gpuBdfids (enabledSources gpuModules)).toFinset.card := by
  obtain ⟨g, hinit⟩ := gpuModules_init
  exact ⟨g, hinit, gpuView_iff .insertion .insertion (by decide) hinit⟩

end Yloc
