import Yloc.Lib.ExceptRun
import Yloc.Modules.Gpu
import Yloc.Status

/-!
`modules/nvml`: the GPUs that NVML reports.

As in `modules/rocm`, a device goes to the vertex of its bdfid, which becomes a
GPU; its description stays as it is. The queries are a parameter (`NvmlDevice`,
`NvmlSource`).

* `bdfidGet`: the bdfid of a PCI address, without the function number.
* `nvmlAdapter`, `addNvmlDevice`, `NvmlSource.initGraph`: the adapter and the
  functions of `nvml_impl.cc`, in which `EXIT_ERR_NVML` writes a message and goes
  on. The adapter that the source calls `a` is read as `nvml_adapter`.
* `NvmlSource.ops`: what the module does to the topology, connected to the code by
  `NvmlSource.initGraph_represents`.
-/

namespace Yloc

variable {n : ℕ}

/-- `nvmlPciInfo_t`: the members that are read. -/
structure NvmlPciInfo where
  domain : UInt32
  bus : UInt32
  device : UInt32
  deriving DecidableEq, Repr

/-- `bdfid_get`. -/
def bdfidGet (pci : NvmlPciInfo) : UInt64 :=
  ((pci.domain.toUInt64 &&& 0xffffffff) <<< 32)
    ||| ((pci.bus.toUInt64 &&& 0xff) <<< 8)
    ||| ((pci.device.toUInt64 &&& 0x1f) <<< 3)

/-- `ffs`: one more than the position of the lowest set bit of an `int`, or zero. -/
def ffs (x : UInt64) : UInt64 :=
  match (List.range 32).find? fun i => x.toNat.testBit i with
  | some i => UInt64.ofNat (i + 1)
  | none => 0

/-- What the queries for a device answer, `none` where they fail. -/
structure NvmlDevice where
  /-- `nvmlDeviceGetHandleByIndex_v2` -/
  handle : ℕ
  /-- `nvmlDeviceGetName` -/
  name : String
  /-- `nvmlDeviceGetPciInfo_v3` -/
  pciInfo : Option NvmlPciInfo
  /-- `nvmlDeviceGetMemoryInfo`: total and used. -/
  memoryInfo : Option (UInt64 × UInt64) := none
  /-- `nvmlDeviceGetUtilizationRates`: GPU and memory. -/
  utilizationRates : Option (UInt32 × UInt32) := none
  /-- `nvmlDeviceGetClock`, for `NVML_CLOCK_MEM` and `NVML_CLOCK_GRAPHICS` -/
  memClock : Option UInt32 := none
  graphicsClock : Option UInt32 := none
  memoryAffinity : Option UInt64 := none
  temperature : Option UInt32 := none
  powerUsage : Option UInt32 := none

/-- `NvmlAdapter`. -/
def nvmlAdapter (n : ℕ) (device : NvmlDevice) : Adapter n where
  toString := device.name
  memory := device.memoryInfo.map fun memory => memory.1
  memoryUsage := device.memoryInfo.map fun memory => memory.2
  memoryLoad := device.utilizationRates.map fun load => load.2.toUInt64
  memoryFrequency := device.memClock.map fun clockMHz => clockMHz.toUInt64 * 1000 * 1000
  bdfid := device.pciInfo.map bdfidGet
  numaAffinity := device.memoryAffinity.map ffs
  temperature := device.temperature.map fun t => t.toUInt64.toInt64 * 1000
  frequency := device.graphicsClock.map fun clockMHz => clockMHz.toUInt64 * 1000 * 1000
  load := device.utilizationRates.map fun load => load.1.toUInt64
  power := device.powerUsage.map fun power => power.toUInt64 * 1000
  mObj := .nvmlDevice device.handle

/-- What one initialisation of the module reads. -/
structure NvmlSource where
  /-- `nvmlInit_v2` succeeds. -/
  nvmlInit : Bool
  /-- The devices, as many as `num_devices` says. -/
  devices : List NvmlDevice
  /-- `nvmlDeviceGetP2PStatus` leaves `NVML_P2P_STATUS_OK` for NVLINK. -/
  p2pStatusOk : ℕ → ℕ → Bool

/-- What a device does to its vertex. -/
def contributeNvml (device : NvmlDevice) (v : Vertex n) : Vertex n :=
  (v.addAdapter (nvmlAdapter n device)).setType .gpu

/-- The body of the loop over the devices. The state is the graph and `vertices`;
`g[vd].type` is read as `m_type`. -/
def addNvmlDevice (state : Graph n × List VertexT) (device : NvmlDevice) :
    Except Abort (Graph n × List VertexT) :=
  let (g, vertices) := state
  match (nvmlAdapter n device).bdfid with
  | none => .error .badOptionalAccess
  | some bdfid =>
      let (vd, g) := g.addVertexId (bdfidId bdfid)
      let g := g.modify vd (contributeNvml device)
      .ok (g, vertices ++ [vd])

namespace NvmlSource

/-- `yloc_nvml_gpu_interconnect`. -/
def gpuInterconnect (source : NvmlSource) (g : Graph n) (vertices : List VertexT) :
    ℕ × Graph n :=
  Yloc.gpuInterconnect source.p2pStatusOk vertices.zipIdx (0, g)

/-- `ModuleNvml::init_graph`. A failure of `nvmlInit_v2` is reported and ignored. -/
def initGraph (source : NvmlSource) (g : Graph n) : Except Abort (YlocStatus × Graph n) := do
  let (g, vertices) ← source.devices.foldlM addNvmlDevice (g, [])
  let (_, g) := source.gpuInterconnect g vertices
  .ok (.success, g)

end NvmlSource

/-- `ModuleNvml` returns only if the PCI information of every device is known. -/
lemma NvmlSource.pciInfo_of_initGraph {source : NvmlSource} {g : Graph n}
    {result : YlocStatus × Graph n} (h : source.initGraph g = .ok result) :
    ∀ device ∈ source.devices, device.pciInfo.isSome := by
  obtain ⟨state, hloop, -⟩ := Except.exists_of_bind h
  refine foldlM_ok_forall (fun state device state' hstep => ?_) hloop
  rw [Option.isSome_iff_ne_none]
  intro hpci
  rw [addNvmlDevice, nvmlAdapter, hpci] at hstep
  cases hstep

/-- It does return then. -/
lemma NvmlSource.exists_initGraph {source : NvmlSource}
    (hpci : ∀ device ∈ source.devices, device.pciInfo.isSome) (g : Graph n) :
    ∃ g', source.initGraph g = .ok (.success, g') := by
  have hround : ∀ device ∈ source.devices, ∀ state : Graph n × List VertexT,
      ∃ state', addNvmlDevice state device = .ok state' := by
    rintro device hdevice ⟨g, vertices⟩
    obtain ⟨pci, hpci⟩ := Option.isSome_iff_exists.mp (hpci device hdevice)
    rw [addNvmlDevice, nvmlAdapter, hpci]
    exact ⟨_, rfl⟩
  obtain ⟨state, hloop⟩ := exists_foldlM_ok hround (g, [])
  refine ⟨(source.gpuInterconnect state.1 state.2).2, ?_⟩
  rw [NvmlSource.initGraph, hloop]
  rfl

/-! ### What the module does to the topology -/

/-- The key of a device whose PCI information is known. -/
def nvmlKey (device : NvmlDevice) : Option Key :=
  device.pciInfo.map fun pci => bdfidKey (bdfidGet pci)

/-- The operations of the loop over the devices. -/
def nvmlPuts (devices : List NvmlDevice) : List (TopologyOp n) :=
  devices.filterMap fun device => (nvmlKey device).map fun k => .put k (contributeNvml device)

/-- The operations of `ModuleNvml::init_graph`. -/
def NvmlSource.ops (source : NvmlSource) : List (TopologyOp n) :=
  nvmlPuts source.devices ++
    peerOps source.p2pStatusOk (source.devices.filterMap nvmlKey).zipIdx

section

variable {φ : Key → Option VertexT} {g : Graph n} {T : Topology n}

/-- The loop over the devices, all of which answer the query for their PCI
information, makes its changes and collects the vertices of the keys. -/
lemma addNvmlDevices_advance (devices : List NvmlDevice)
    (hpci : ∀ device ∈ devices, device.pciInfo.isSome) (h : Represents φ g T)
    {vertices : List VertexT} {keys : List Key}
    (hkeys : List.Forall₂ (fun v k => φ k = some v) vertices keys) :
    ∃ φ' g' vertices', devices.foldlM addNvmlDevice (g, vertices) = .ok (g', vertices') ∧
      Advance φ g φ' g' (T.run (nvmlPuts devices)) ∧
      List.Forall₂ (fun v k => φ' k = some v) vertices' (keys ++ devices.filterMap nvmlKey) := by
  induction devices generalizing φ g T vertices keys with
  | nil => exact ⟨φ, g, vertices, rfl, .refl h, by simpa using hkeys⟩
  | cons device devices ih =>
      obtain ⟨pci, hpciInfo⟩ := Option.isSome_iff_exists.mp (hpci device (by simp))
      have hkey : nvmlKey device = some (bdfidKey (bdfidGet pci)) := by rw [nvmlKey, hpciInfo]; rfl
      have hbdfid : (nvmlAdapter n device).bdfid = some (bdfidGet pci) := by
        rw [nvmlAdapter, hpciInfo]
        rfl
      obtain ⟨φ₁, vd, g₁, hvertex, hvd, hadv₁⟩ := h.addVertexId (bdfidId (bdfidGet pci))
      have hrep := hadv₁.rep.modify hvd (contributeNvml device)
      obtain ⟨φ₂, g₂, vertices₂, hrun, hadv₂, hkeys₂⟩ :=
        ih (fun d hd => hpci d (List.mem_cons_of_mem _ hd)) hrep
          (forall₂_concat hkeys hadv₁.keeps hvd)
      refine ⟨φ₂, g₂, vertices₂, ?_, ⟨?_, hadv₁.keeps.trans hadv₂.keeps,
        hadv₂.root.trans hadv₁.root⟩, ?_⟩
      · rw [List.foldlM_cons, addNvmlDevice, hbdfid]
        simp only [hvertex]
        exact hrun
      · rw [nvmlPuts, List.filterMap_cons, hkey]
        exact hadv₂.rep
      · rw [List.filterMap_cons, hkey]
        simpa using hkeys₂

/-- **`ModuleNvml::init_graph` makes the changes of its operations** when the PCI
information of every device is known. -/
theorem NvmlSource.initGraph_represents (source : NvmlSource)
    (hpci : ∀ device ∈ source.devices, device.pciInfo.isSome) (h : Represents φ g T) :
    ∃ φ' g', source.initGraph g = .ok (.success, g') ∧
      Advance φ g φ' g' (T.run source.ops) := by
  obtain ⟨φ₁, g₁, vertices, hrun, hadv₁, hkeys⟩ :=
    addNvmlDevices_advance source.devices hpci h .nil
  rw [List.nil_append] at hkeys
  have hadv₂ := gpuInterconnect_advance source.p2pStatusOk (sameDevice_zipIdx hkeys 0)
    (0, g₁) hadv₁.rep
  refine ⟨φ₁, (source.gpuInterconnect g₁ vertices).2, ?_, ?_⟩
  · rw [NvmlSource.initGraph, hrun]
    rfl
  · rw [NvmlSource.ops, Topology.run, runOps_append]
    exact hadv₁.trans hadv₂

end

end Yloc
