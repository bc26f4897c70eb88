import Yloc.Modules.Gpu
import Yloc.Status

/-!
`modules/rocm`: the GPUs that ROCm SMI reports.

A device goes to the vertex of its bdfid, which becomes a GPU with the name of
the device whatever was there before. The queries are a parameter
(`RocmDevice`, `RocmSource`): a query that fails leaves its variable as it was.

* `rocmAdapter`, `addRocmDevice`, `RocmSource.initGraph`: the adapter and the
  functions of `rocm_impl.cc`, in which `EXIT_ERR_ROCM` writes a message and
  goes on.
* `RocmSource.ops`: what the module does to the topology, connected to the code by
  `RocmSource.initGraph_represents`.
-/

namespace Yloc

variable {n : ℕ}

/-- What the queries for a device answer, `none` where they fail. -/
structure RocmDevice where
  /-- `rsmi_dev_name_get` -/
  name : String
  /-- `rsmi_dev_pci_id_get` -/
  pciId : Option UInt64
  memoryTotal : Option UInt64 := none
  memoryUsage : Option UInt64 := none
  memoryBusyPercent : Option UInt32 := none
  /-- `rsmi_dev_gpu_clk_freq_get`, for `RSMI_CLK_TYPE_MEM` and `RSMI_CLK_TYPE_SYS` -/
  memClkFreq : Option UInt64 := none
  sysClkFreq : Option UInt64 := none
  numaAffinity : Option UInt32 := none
  temperature : Option Int64 := none
  busyPercent : Option UInt32 := none
  powerAve : Option UInt64 := none
  /-- `rsmi_dev_pci_throughput_get`: sent and received. -/
  pciThroughput : Option (UInt64 × UInt64) := none

/-- `RocmAdapter` of the device with the index `index`. -/
def rocmAdapter (n : ℕ) (device : RocmDevice) (index : ℕ) : Adapter n where
  toString := device.name
  memory := device.memoryTotal
  memoryUsage := device.memoryUsage
  memoryLoad := device.memoryBusyPercent.map UInt32.toUInt64
  memoryFrequency := device.memClkFreq
  bdfid := device.pciId
  numaAffinity := device.numaAffinity.map UInt32.toUInt64
  temperature := device.temperature
  frequency := device.sysClkFreq
  load := device.busyPercent.map UInt32.toUInt64
  power := device.powerAve
  pciThroughput := device.pciThroughput.map fun t => t.1 + t.2
  pciThroughputRead := device.pciThroughput.map fun t => t.2
  pciThroughputWrite := device.pciThroughput.map fun t => t.1
  mObj := .rocmDevice index

/-- What one initialisation of the module reads. -/
structure RocmSource where
  /-- `rsmi_init` succeeds. -/
  rsmiInit : Bool
  /-- What the variable `bdfid` holds before its first query. -/
  bdfid : UInt64
  /-- The devices, as many as `num_devices` says. -/
  devices : List RocmDevice
  /-- What `rsmi_topo_get_link_type` leaves in `hops`. -/
  hops : ℕ → ℕ → UInt64

/-- What a device does to its vertex. -/
def contributeRocm (device : RocmDevice) (index : ℕ) (v : Vertex n) : Vertex n :=
  ((v.addAdapter (rocmAdapter n device index)).describe
    (rocmAdapter n device index).toString).setType .gpu

/-- The body of the loop over the devices. The state is the graph, `vertices` and
`bdfid`, which a query that fails leaves as it was. `g[vd].type` is read as `m_type`. What is
only printed is left out, also where it is computed from the uninitialised `bandwidth` that
a failing `rsmi_dev_pci_bandwidth_get` leaves. -/
def addRocmDevice (state : Graph n × List VertexT × UInt64) (device : RocmDevice × ℕ) :
    Graph n × List VertexT × UInt64 :=
  let (g, vertices, bdfid) := state
  let bdfid := device.1.pciId.getD bdfid
  let (vd, g) := g.addVertexId (bdfidId bdfid)
  let g := g.modify vd (contributeRocm device.1 device.2)
  (g, vertices ++ [vd], bdfid)

namespace RocmSource

/-- `yloc_rocm_gpu_interconnect`, whose `YLOC_GPU_INTERCONNECT` is read as
`GPU_INTERCONNECT`. -/
def gpuInterconnect (source : RocmSource) (g : Graph n) (vertices : List VertexT) :
    ℕ × Graph n :=
  Yloc.gpuInterconnect (fun src dst => source.hops src dst == 1) vertices.zipIdx (0, g)

/-- `ModuleRocm::init_graph`. A failure of `rsmi_init` is reported and ignored. -/
def initGraph (source : RocmSource) (g : Graph n) : YlocStatus × Graph n :=
  let (g, vertices, _) := source.devices.zipIdx.foldl addRocmDevice (g, [], source.bdfid)
  let (_, g) := source.gpuInterconnect g vertices
  (.success, g)

end RocmSource

/-! ### What the module does to the topology -/

/-- The values of `bdfid` in the rounds of the loop. -/
def rocmBdfids : UInt64 → List RocmDevice → List UInt64
  | _, [] => []
  | bdfid, device :: devices =>
      device.pciId.getD bdfid :: rocmBdfids (device.pciId.getD bdfid) devices

/-- The operations of the loop over the devices. -/
def rocmPuts : UInt64 → List (RocmDevice × ℕ) → List (TopologyOp n)
  | _, [] => []
  | bdfid, device :: devices =>
      .put (bdfidKey (device.1.pciId.getD bdfid)) (contributeRocm device.1 device.2) ::
        rocmPuts (device.1.pciId.getD bdfid) devices

namespace RocmSource

/-- The keys of the devices. -/
def keys (source : RocmSource) : List Key := (rocmBdfids source.bdfid source.devices).map bdfidKey

/-- The operations of `ModuleRocm::init_graph`. -/
def ops (source : RocmSource) : List (TopologyOp n) :=
  rocmPuts source.bdfid source.devices.zipIdx ++
    peerOps (fun src dst => source.hops src dst == 1) source.keys.zipIdx

end RocmSource

section

variable {φ : Key → Option VertexT} {g : Graph n} {T : Topology n}

/-- The loop over the devices makes its changes and collects the vertices of the
keys. -/
lemma addRocmDevices_advance (devices : List (RocmDevice × ℕ)) (h : Represents φ g T)
    {vertices : List VertexT} {keys : List Key}
    (hkeys : List.Forall₂ (fun v k => φ k = some v) vertices keys) (bdfid : UInt64) :
    ∃ φ' g' vertices' bdfid',
      devices.foldl addRocmDevice (g, vertices, bdfid) = (g', vertices', bdfid') ∧
      Advance φ g φ' g' (T.run (rocmPuts bdfid devices)) ∧
      List.Forall₂ (fun v k => φ' k = some v) vertices'
        (keys ++ (rocmBdfids bdfid (devices.map Prod.fst)).map bdfidKey) := by
  induction devices generalizing φ g T vertices keys bdfid with
  | nil => exact ⟨φ, g, vertices, bdfid, rfl, .refl h, by simpa [rocmBdfids] using hkeys⟩
  | cons device devices ih =>
      obtain ⟨φ₁, vd, g₁, hvertex, hvd, hadv₁⟩ :=
        h.addVertexId (bdfidId (device.1.pciId.getD bdfid))
      have hrep := hadv₁.rep.modify hvd (contributeRocm device.1 device.2)
      obtain ⟨φ₂, g₂, vertices₂, bdfid₂, hrun, hadv₂, hkeys₂⟩ :=
        ih hrep (forall₂_concat hkeys hadv₁.keeps hvd) (device.1.pciId.getD bdfid)
      refine ⟨φ₂, g₂, vertices₂, bdfid₂, ?_, ⟨hadv₂.rep, hadv₁.keeps.trans hadv₂.keeps,
        hadv₂.root.trans hadv₁.root⟩, ?_⟩
      · rw [List.foldl_cons, addRocmDevice]
        simp only [hvertex]
        exact hrun
      · simpa [rocmBdfids] using hkeys₂

/-- **`ModuleRocm::init_graph` makes the changes of its operations.** -/
theorem RocmSource.initGraph_represents (source : RocmSource) (h : Represents φ g T) :
    ∃ φ' g', source.initGraph g = (.success, g') ∧ Advance φ g φ' g' (T.run source.ops) := by
  obtain ⟨φ₁, g₁, vertices, bdfid, hrun, hadv₁, hkeys⟩ :=
    addRocmDevices_advance source.devices.zipIdx h .nil source.bdfid
  rw [List.nil_append, List.zipIdx_map_fst] at hkeys
  have hadv₂ := gpuInterconnect_advance (fun src dst => source.hops src dst == 1)
    (sameDevice_zipIdx hkeys 0) (0, g₁) hadv₁.rep
  refine ⟨φ₁, (source.gpuInterconnect g₁ vertices).2, ?_, ?_⟩
  · rw [RocmSource.initGraph, hrun]
  · rw [RocmSource.ops, Topology.run, runOps_append]
    exact hadv₁.trans hadv₂

end

end Yloc
