import Yloc.Shape

/-!
PCI devices that hwloc and NVML report.

Both modules look for the vertex of a device under its bdfid. hwloc packs all four
fields of the address, `bdfid_get` leaves the function number out, so a device
that NVML reports is taken for the one with function number zero in its slot.

* `toNat_bdfid`: what the masks and shifts of a bdfid compute.
* `PciAddress`: an address, with what hwloc and NVML say of it.
* `runSources_assignsDevice`: a run assigns its devices to vertices.
* `pciUnification_iff`: when the vertices of two devices are the same exactly if
  their addresses are.
-/

namespace Yloc

variable {n : ℕ}

/-! ### Bit fields -/

/-- The low bits of a number. -/
lemma toNat_and_mask (x : UInt64) {mask : UInt64} (m : ℕ) (hmask : mask.toNat = 2 ^ m - 1) :
    (x &&& mask).toNat = x.toNat % 2 ^ m := by
  rw [UInt64.toNat_and, hmask, Nat.and_two_pow_sub_one_eq_mod]

/-- A field of `m` bits above `i` bits is added to them. -/
lemma toNat_field_or (x : UInt64) {mask k y : UInt64} (m i : ℕ) (hmask : mask.toNat = 2 ^ m - 1)
    (hk : k.toNat = i) (hi : i < 64) (hm : m + i ≤ 64) (hy : y.toNat < 2 ^ i) :
    (((x &&& mask) <<< k) ||| y).toNat = x.toNat % 2 ^ m * 2 ^ i + y.toNat := by
  have hlt : x.toNat % 2 ^ m * 2 ^ i < 2 ^ 64 := calc
    x.toNat % 2 ^ m * 2 ^ i < 2 ^ m * 2 ^ i :=
      Nat.mul_lt_mul_of_pos_right (Nat.mod_lt _ (Nat.two_pow_pos m)) (Nat.two_pow_pos i)
    _ = 2 ^ (m + i) := (pow_add 2 m i).symm
    _ ≤ 2 ^ 64 := Nat.pow_le_pow_right (by decide) hm
  rw [UInt64.toNat_or, UInt64.toNat_shiftLeft, hk, Nat.mod_eq_of_lt hi,
    toNat_and_mask x m hmask, Nat.shiftLeft_eq, Nat.mod_eq_of_lt hlt, ← Nat.shiftLeft_eq,
    ← Nat.shiftLeft_add_eq_or_of_lt hy]

/-- **The value of a bdfid**: its fields side by side. -/
theorem toNat_bdfid (domain bus device function : UInt64) :
    (((domain &&& 0xffffffff) <<< 32) ||| ((bus &&& 0xff) <<< 8)
      ||| ((device &&& 0x1f) <<< 3) ||| (function &&& 0x7)).toNat =
    domain.toNat % 2 ^ 32 * 2 ^ 32 + bus.toNat % 2 ^ 8 * 2 ^ 8 + device.toNat % 2 ^ 5 * 2 ^ 3 +
      function.toNat % 2 ^ 3 := by
  have hfunction := toNat_and_mask function 3 (show (0x7 : UInt64).toNat = 2 ^ 3 - 1 from rfl)
  have hdevice := toNat_field_or device 5 3 (show (0x1f : UInt64).toNat = 2 ^ 5 - 1 from rfl)
    (show (3 : UInt64).toNat = 3 from rfl) (by decide) (by decide)
    (show (function &&& 0x7).toNat < 2 ^ 3 by omega)
  have hbus := toNat_field_or bus 8 8 (show (0xff : UInt64).toNat = 2 ^ 8 - 1 from rfl)
    (show (8 : UInt64).toNat = 8 from rfl) (by decide) (by decide)
    (show ((device &&& 0x1f) <<< 3 ||| (function &&& 0x7)).toNat < 2 ^ 8 by omega)
  have hdomain := toNat_field_or domain 32 32
    (show (0xffffffff : UInt64).toNat = 2 ^ 32 - 1 from rfl)
    (show (32 : UInt64).toNat = 32 from rfl) (by decide) (by decide)
    (show ((bus &&& 0xff) <<< 8 ||| ((device &&& 0x1f) <<< 3 ||| (function &&& 0x7))).toNat < 2 ^ 32
      by omega)
  rw [UInt64.or_assoc, UInt64.or_assoc, hdomain, hbus, hdevice, hfunction]
  omega

/-! ### Addresses -/

/-- The address of a PCI device. -/
structure PciAddress where
  domain : BitVec 32
  bus : BitVec 8
  device : BitVec 5
  function : BitVec 3
  deriving DecidableEq, Repr

namespace PciAddress

/-- The address as hwloc gives it. -/
def toHwloc (a : PciAddress) : HwlocPcidevAttr where
  domain := .ofBitVec a.domain
  bus := .ofBitVec a.bus
  dev := .ofBitVec (a.device.setWidth 8)
  func := .ofBitVec (a.function.setWidth 8)

/-- The members of `nvmlPciInfo_t` that `bdfid_get` reads. The function number is in
none of them. -/
def toNvml (a : PciAddress) : NvmlPciInfo where
  domain := .ofBitVec a.domain
  bus := .ofBitVec (a.bus.setWidth 32)
  device := .ofBitVec (a.device.setWidth 32)

/-- The fields of the address side by side, as in the format of bdfids. -/
def value (a : PciAddress) : ℕ :=
  a.domain.toNat * 2 ^ 32 + a.bus.toNat * 2 ^ 8 + a.device.toNat * 2 ^ 3 + a.function.toNat

/-- The device is in the slot of the other one. -/
def SameSlot (a b : PciAddress) : Prop := a.domain = b.domain ∧ a.bus = b.bus ∧ a.device = b.device

instance (a b : PciAddress) : Decidable (a.SameSlot b) := by
  unfold SameSlot
  infer_instance

/-- The device of function number zero in the slot. -/
def slot (a : PciAddress) : PciAddress := { a with function := 0 }

/-- Addresses are told apart by their values. -/
lemma value_inj {a b : PciAddress} : a.value = b.value ↔ a = b := by
  refine ⟨fun h => ?_, fun h => h ▸ rfl⟩
  obtain ⟨da, ba, va, fa⟩ := a
  obtain ⟨db, bb, vb, fb⟩ := b
  simp only [value] at h
  have hba := ba.isLt
  have hbb := bb.isLt
  have hva := va.isLt
  have hvb := vb.isLt
  have hfa := fa.isLt
  have hfb := fb.isLt
  simp only [mk.injEq, ← BitVec.toNat_inj]
  omega

/-- hwloc packs the whole address. -/
lemma bdfid_toHwloc (api : HwlocApi) {obj : HwlocObj} (hpci : obj.type = .pciDevice)
    {a : PciAddress} (ha : obj.attrs.pcidev = a.toHwloc) :
    ∃ b, api.bdfid obj = some b ∧ b.toNat = a.value := by
  refine ⟨_, if_pos (HwlocApi.sameType_iff.mpr hpci), ?_⟩
  rw [toNat_bdfid, ha]
  have hd := a.domain.isLt
  have hb := a.bus.isLt
  have hv := a.device.isLt
  have hf := a.function.isLt
  simp only [toHwloc, value, UInt32.toNat_toUInt64, UInt8.toNat_toUInt64, UInt32.toNat_ofBitVec,
    UInt8.toNat_ofBitVec, BitVec.toNat_setWidth]
  omega

/-- `bdfid_get` packs the address with function number zero. -/
lemma bdfidGet_toNvml (a : PciAddress) : (bdfidGet a.toNvml).toNat = a.slot.value := by
  have hzero : bdfidGet a.toNvml = bdfidGet a.toNvml ||| (0 &&& 0x7) := by simp
  rw [hzero, bdfidGet, toNat_bdfid]
  have hd := a.domain.isLt
  have hb := a.bus.isLt
  have hv := a.device.isLt
  simp only [toNvml, slot, value, UInt32.toNat_toUInt64, UInt32.toNat_ofBitVec,
    BitVec.toNat_setWidth, UInt64.toNat_zero, show (0 : BitVec 3).toNat = 0 from rfl]
  omega

/-- The device in the slot of `b` is told apart from `a` as `b` is, unless both are in
one slot, `b` has a function number and `a` has none or the same. -/
lemma eq_slot_iff_eq_iff {a b : PciAddress} : (a = b.slot ↔ a = b) ↔
    b.function = 0 ∨ ¬ a.SameSlot b ∨ a.function ≠ 0 ∧ a.function ≠ b.function := by
  obtain ⟨da, ba, va, fa⟩ := a
  obtain ⟨db, bb, vb, fb⟩ := b
  simp only [slot, SameSlot, mk.injEq]
  by_cases hb : fb = 0
  · simp [hb]
  · by_cases ha : fa = 0
    · subst ha
      have : (0 : BitVec 3) ≠ fb := fun h => hb h.symm
      grind
    · grind

end PciAddress

/-! ### The vertices of devices -/

/-- The device of the adapter is assigned to the vertex `v`: the vertex is bound to the
identifier of its bdfid and carries the adapter. -/
structure Graph.AssignsDevice (g : Graph n) (a : Adapter n) (v : VertexT) : Prop where
  id : ∃ b, a.bdfid = some b ∧ g.lookup (bdfidId b) = some v
  adapter : a ∈ (g.vertex v).mAdapters

/-- No module takes adapters away. -/
lemma ModuleSource.put_keeps {source : ModuleSource} {s : ℕ} {k : Key} {f : Vertex n → Vertex n}
    (h : .put k f ∈ source.ops s) (v : Vertex n) : v.mAdapters ⊆ (f v).mAdapters := by
  cases source with
  | hwloc source =>
      rw [ModuleSource.ops] at h
      split at h
      · rcases List.mem_cons.mp h with hop | h
        · cases hop
          simp [HwlocSource.contributeRoot]
        · rcases HwlocApi.mem_hwlocOps h with ⟨obj, i, -, hop⟩ | ⟨a, b, hop⟩
          · cases hop
            simp [HwlocApi.contribute]
          · cases hop
      · cases h
  | mpi source => cases h
  | superMUC source =>
      rw [ModuleSource.ops] at h
      split at h
      · rcases mem_supermucOps h with ⟨hostname, hop⟩ | ⟨name, hop⟩ | ⟨name, b, hop⟩ <;> cases hop
        · simp [contributeSupermuc]
        · simp [contributeSupermuc]
      · cases h
  | rocm source =>
      rcases RocmSource.mem_ops h with ⟨b, device, index, -, -, hop⟩ | ⟨b, b', hop⟩ <;> cases hop
      simp [contributeRocm]
  | nvml source =>
      rcases List.mem_append.mp h with h | h
      · obtain ⟨b, device, hop⟩ := mem_nvmlPuts h
        cases hop
        simp [contributeNvml]
      · obtain ⟨a, -, b, -, hop⟩ := mem_peerOps h
        cases hop

/-- A PCI device of hwloc has the key of its bdfid. -/
lemma HwlocApi.hwlocKey_of_bdfid {api : HwlocApi} {obj : HwlocObj} (hpci : obj.type = .pciDevice)
    {b : UInt64} (hb : api.bdfid obj = some b) (i : ℕ) : api.hwlocKey i obj = bdfidKey b := by
  have hisA : (api.hwloc2YlocType obj).isA .pciDevice = true := by
    rw [HwlocApi.hwloc2YlocType_pciDevice hpci]
    rfl
  rw [HwlocApi.hwlocKey, dif_pos hisA]
  simp [hb]

/-- The operations of a module are among those of a run with it. -/
lemma subset_sourcesOps {source : ModuleSource} {sources : List ModuleSource}
    (h : source ∈ sources) (s : ℕ) :
    ∃ s', (source.ops s' : List (TopologyOp n)) ⊆ sourcesOps s sources := by
  induction sources generalizing s with
  | nil => cases h
  | cons source' sources ih =>
      rw [sourcesOps]
      rcases List.mem_cons.mp h with rfl | h
      · exact ⟨s, List.subset_append_left _ _⟩
      · obtain ⟨s', hsubset⟩ := ih h (s + source'.objectCount)
        exact ⟨s', List.subset_append_of_subset_right _ hsubset⟩

/-- Every operation of a run is one of a module. -/
lemma mem_sourcesOps {sources : List ModuleSource} {s : ℕ} {op : TopologyOp n}
    (h : op ∈ sourcesOps s sources) : ∃ source ∈ sources, ∃ s', op ∈ source.ops s' := by
  induction sources generalizing s with
  | nil => cases h
  | cons source sources ih =>
      rw [sourcesOps] at h
      rcases List.mem_append.mp h with h | h
      · exact ⟨source, by simp, s, h⟩
      · obtain ⟨source', hmem, s', hop⟩ := ih h
        exact ⟨source', List.mem_cons_of_mem _ hmem, s', hop⟩

section

variable {T : Topology n} {k : Key} {a : Adapter n}

/-- An adapter stays on its vertex. -/
lemma Topology.adapter_run {ops : List (TopologyOp n)}
    (hkeeps : ∀ k f, .put k f ∈ ops → ∀ v, v.mAdapters ⊆ (f v).mAdapters)
    (ha : ∃ x, T.info k = some x ∧ a ∈ x.mAdapters) :
    ∃ x, (T.run ops).info k = some x ∧ a ∈ x.mAdapters := by
  induction ops generalizing T with
  | nil => exact ha
  | cons op ops ih =>
      refine ih (fun k f hf => hkeeps k f (List.mem_cons_of_mem _ hf)) ?_
      obtain ⟨x, hx, ha⟩ := ha
      rcases op.put_or_info T with ⟨k', f, rfl⟩ | ⟨-, hinfo⟩
      · by_cases hk : k = k'
        · subst hk
          refine ⟨f x, by rw [TopologyOp.put_info_self, hx, Option.getD_some], ?_⟩
          exact hkeeps k f (by simp) x ha
        · exact ⟨x, by rw [TopologyOp.put_info_of_ne hk, hx], ha⟩
      · exact ⟨x, by rw [hinfo, hx], ha⟩

/-- An adapter that an operation of the run puts on a vertex is there after the run. -/
lemma Topology.adapter_of_mem {ops : List (TopologyOp n)}
    (hops : ∀ op ∈ ops, ∃ source : ModuleSource, ∃ s, op ∈ source.ops s)
    {f : Vertex n → Vertex n} (hput : .put k f ∈ ops) (ha : ∀ v, a ∈ (f v).mAdapters) :
    ∃ x, (T.run ops).info k = some x ∧ a ∈ x.mAdapters := by
  obtain ⟨before, after, rfl⟩ := List.append_of_mem hput
  rw [Topology.run, runOps_append, runOps_cons]
  refine Topology.adapter_run (fun k f hf => ?_) ?_
  · obtain ⟨source, s, hop⟩ := hops _ (List.mem_append_right _ (List.mem_cons_of_mem _ hf))
    exact ModuleSource.put_keeps hop
  · exact ⟨_, TopologyOp.put_info_self k f _, ha _⟩

end

/-- **A run assigns its devices**: those that hwloc finds below the machine and those of
NVML. -/
theorem runSources_assignsDevice (S : StdSort VertexT) {sources : List ModuleSource}
    (hfirst : ∀ source ∈ sources, source.IsFirst) {g : Graph n} (hg : g.WellFormed) :
    ∃ g', runSources S sources g = .ok g' ∧ g'.WellFormed ∧
      (∀ hw, .hwloc hw ∈ sources → hw.checkHwlocApiVersion = .success →
        ∀ obj ∈ hw.children.objects, obj.type = .pciDevice →
          ∃ v, g'.AssignsDevice (hw.api.hwlocAdapter n obj) v) ∧
      ∀ nvml, .nvml nvml ∈ sources → ∀ device ∈ nvml.devices,
        ∃ v, g'.AssignsDevice (nvmlAdapter n device) v := by
  obtain ⟨φ, T, hrep, hfresh⟩ := exists_represents hg
  obtain ⟨φ', g', hrun, hrep', -, -⟩ := runSources_represents S hfirst hrep hfresh
  -- what is put on the key of a bdfid arrives at the vertex of its identifier
  have hassigns : ∀ {a : Adapter n} {b : UInt64} {f : Vertex n → Vertex n},
      .put (bdfidKey b) f ∈ sourcesOps g.numVertices sources → a.bdfid = some b →
        (∀ v, a ∈ (f v).mAdapters) → ∃ v, g'.AssignsDevice a v := by
    intro a b f hput hb ha
    obtain ⟨x, hx, hmem⟩ := Topology.adapter_of_mem (T := T)
      (fun op hop => (mem_sourcesOps hop).imp fun source h => h.2) hput ha
    obtain ⟨v, hv⟩ := hrep'.exists_place (Option.isSome_iff_exists.mpr ⟨x, hx⟩)
    refine ⟨v, ⟨b, hb, by rw [hrep'.ids, hv]⟩, ?_⟩
    rwa [← Option.some.inj (hx.symm.trans (hrep'.info_vertex hv))]
  refine ⟨g', hrun, hrep'.wellFormed, fun hw hmem hversion obj hobj hpci => ?_,
    fun nvml hmem device hdevice => ?_⟩
  · obtain ⟨s, hsubset⟩ := subset_sourcesOps (n := n) hmem g.numVertices
    obtain ⟨i, hi⟩ := List.getElem?_of_mem hobj
    have hput := hw.api.put_mem_hwlocOps (n := n) hi s (machineKey hw.hostname)
    obtain ⟨b, hb⟩ : ∃ b, hw.api.bdfid obj = some b :=
      ⟨_, if_pos (HwlocApi.sameType_iff.mpr hpci)⟩
    rw [HwlocApi.hwlocKey_of_bdfid hpci hb] at hput
    have hadds : ∀ v, hw.api.hwlocAdapter n obj ∈ (hw.api.contribute obj v).mAdapters := fun v => by
      simp [HwlocApi.contribute]
    refine hassigns (hsubset ?_) hb hadds
    rw [ModuleSource.ops, if_pos hversion]
    exact List.mem_cons_of_mem _ hput
  · obtain ⟨s, hsubset⟩ := subset_sourcesOps (n := n) hmem g.numVertices
    obtain ⟨pci, hpci⟩ := Option.isSome_iff_exists.mp (hfirst _ hmem device hdevice)
    have hadds : ∀ v, nvmlAdapter n device ∈ (contributeNvml device v).mAdapters := fun v => by
      simp [contributeNvml]
    refine hassigns (hsubset (List.mem_append_left _ ?_)) (by rw [nvmlAdapter, hpci]; rfl) hadds
    refine List.mem_filterMap.mpr ⟨device, hdevice, ?_⟩
    rw [nvmlKey, hpci]
    rfl

/-- The vertex of a device is that of the value of its bdfid. -/
lemma Graph.AssignsDevice.eq_iff {g : Graph n} (hg : g.WellFormed) {a a' : Adapter n}
    {v w : VertexT} (hv : g.AssignsDevice a v) (hw : g.AssignsDevice a' w) {b b' : UInt64}
    (hb : a.bdfid = some b) (hb' : a'.bdfid = some b') : v = w ↔ b.toNat = b'.toNat := by
  obtain ⟨c, hc, hid⟩ := hv.id
  obtain ⟨c', hc', hid'⟩ := hw.id
  obtain rfl := Option.some.inj (hb.symm.trans hc)
  obtain rfl := Option.some.inj (hb'.symm.trans hc')
  rw [UInt64.toNat_inj, ← bdfidId_inj]
  constructor
  · rintro rfl
    exact hg.inj _ _ _ hid hid'
  · intro h
    rw [h, hid'] at hid
    exact (Option.some.inj hid).symm

section

variable {S : StdSort VertexT} {sources : List ModuleSource} {hw : HwlocSource} {nvml : NvmlSource}
  {obj : HwlocObj} {device : NvmlDevice} {a b : PciAddress} {g : Graph n}

/-- **The vertices of two devices are the same** if that of hwloc has function number
zero and that of NVML is in its slot. -/
theorem runSources_sameVertex_iff (hfirst : ∀ source ∈ sources, source.IsFirst)
    (hhwloc : .hwloc hw ∈ sources) (hversion : hw.checkHwlocApiVersion = .success)
    (hobj : obj ∈ hw.children.objects) (hpci : obj.type = .pciDevice)
    (ha : obj.attrs.pcidev = a.toHwloc) (hnvml : .nvml nvml ∈ sources)
    (hdevice : device ∈ nvml.devices) (hb : device.pciInfo = some b.toNvml) (hg : g.WellFormed) :
    ∃ g' v w, runSources S sources g = .ok g' ∧
      g'.AssignsDevice (hw.api.hwlocAdapter n obj) v ∧
      g'.AssignsDevice (nvmlAdapter n device) w ∧ (v = w ↔ a = b.slot) := by
  obtain ⟨g', hrun, hg', hobjs, hdevices⟩ := runSources_assignsDevice S hfirst hg
  obtain ⟨v, hv⟩ := hobjs hw hhwloc hversion obj hobj hpci
  obtain ⟨w, hw'⟩ := hdevices nvml hnvml device hdevice
  obtain ⟨bdfid, hbdfid, hvalue⟩ := PciAddress.bdfid_toHwloc hw.api hpci ha
  have hbdfid' : (nvmlAdapter n device).bdfid = some (bdfidGet b.toNvml) := by
    rw [nvmlAdapter, hb]
    rfl
  refine ⟨g', v, w, hrun, hv, hw', ?_⟩
  rw [hv.eq_iff hg' hw' hbdfid hbdfid', hvalue, PciAddress.bdfidGet_toNvml, PciAddress.value_inj]

/-- **When the vertices of two devices are the same exactly if their addresses are**:
the device of NVML has function number zero, or the devices are in different slots, or
that of hwloc has a function number and not that of the other. -/
theorem pciUnification_iff (hfirst : ∀ source ∈ sources, source.IsFirst)
    (hhwloc : .hwloc hw ∈ sources) (hversion : hw.checkHwlocApiVersion = .success)
    (hobj : obj ∈ hw.children.objects) (hpci : obj.type = .pciDevice)
    (ha : obj.attrs.pcidev = a.toHwloc) (hnvml : .nvml nvml ∈ sources)
    (hdevice : device ∈ nvml.devices) (hb : device.pciInfo = some b.toNvml) (hg : g.WellFormed) :
    ∃ g' v w, runSources S sources g = .ok g' ∧
      g'.AssignsDevice (hw.api.hwlocAdapter n obj) v ∧
      g'.AssignsDevice (nvmlAdapter n device) w ∧
      ((v = w ↔ a = b) ↔
        b.function = 0 ∨ ¬ a.SameSlot b ∨ a.function ≠ 0 ∧ a.function ≠ b.function) := by
  obtain ⟨g', v, w, hrun, hv, hw', hsame⟩ := runSources_sameVertex_iff (S := S) hfirst hhwloc
    hversion hobj hpci ha hnvml hdevice hb hg
  refine ⟨g', v, w, hrun, hv, hw', ?_⟩
  rw [hsame]
  exact PciAddress.eq_slot_iff_eq_iff

end

/-- A device as hwloc presents it. -/
def pciObj (a : PciAddress) : HwlocObj where
  addr := 1
  type := .pciDevice
  attr := some { pcidev := a.toHwloc }

/-- A device as NVML presents it. -/
def gpuDevice (b : PciAddress) : NvmlDevice where
  handle := 0
  name := "A100"
  pciInfo := some b.toNvml

/-- hwloc presents the device at `a`, NVML that at `b`. -/
def twoSources (a b : PciAddress) : List ModuleSource :=
  [.hwloc { smallMachine with children := .cons (pciObj a) .nil .nil },
    .nvml { nvmlInit := true, devices := [gpuDevice b], p2pStatusOk := fun _ _ => false }]

lemma isFirst_twoSources (a b : PciAddress) : ∀ source ∈ twoSources a b, source.IsFirst := by
  simp [twoSources, ModuleSource.IsFirst, gpuDevice]

/-- A device with function number zero has one vertex. -/
theorem pciUnification_iff_zero :
    ∃ (g : Graph 2) (v w : VertexT),
      runSources .insertion (twoSources ⟨0, 3, 0, 0⟩ ⟨0, 3, 0, 0⟩) {} = .ok g ∧
      g.AssignsDevice (HwlocApi.standard.hwlocAdapter 2 (pciObj ⟨0, 3, 0, 0⟩)) v ∧
      g.AssignsDevice (nvmlAdapter 2 (gpuDevice ⟨0, 3, 0, 0⟩)) w ∧ v = w := by
  obtain ⟨g, v, w, hrun, hv, hw, hiff⟩ := pciUnification_iff (S := .insertion) (g := {})
    (isFirst_twoSources ⟨0, 3, 0, 0⟩ ⟨0, 3, 0, 0⟩) List.mem_cons_self rfl List.mem_cons_self rfl
    rfl (List.mem_cons_of_mem _ List.mem_cons_self) List.mem_cons_self rfl
    Represents.empty.wellFormed
  exact ⟨g, v, w, hrun, hv, hw, (hiff.mpr (.inl rfl)).mpr rfl⟩

/-- A device with function number one has two vertices. -/
theorem not_pciUnification_functionOne :
    ∃ (g : Graph 2) (v w : VertexT),
      runSources .insertion (twoSources ⟨0, 3, 0, 1⟩ ⟨0, 3, 0, 1⟩) {} = .ok g ∧
      g.AssignsDevice (HwlocApi.standard.hwlocAdapter 2 (pciObj ⟨0, 3, 0, 1⟩)) v ∧
      g.AssignsDevice (nvmlAdapter 2 (gpuDevice ⟨0, 3, 0, 1⟩)) w ∧ v ≠ w := by
  obtain ⟨g, v, w, hrun, hv, hw, hiff⟩ := runSources_sameVertex_iff (S := .insertion) (g := {})
    (isFirst_twoSources ⟨0, 3, 0, 1⟩ ⟨0, 3, 0, 1⟩) List.mem_cons_self rfl List.mem_cons_self rfl
    rfl (List.mem_cons_of_mem _ List.mem_cons_self) List.mem_cons_self rfl
    Represents.empty.wellFormed
  exact ⟨g, v, w, hrun, hv, hw, fun h => absurd (hiff.mp h) (by decide)⟩

end Yloc
