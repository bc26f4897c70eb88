import Yloc.PciUnification
import Mathlib.Data.List.TakeWhile

/-!
The assertion of `ModuleNvml::init_graph`.

Having looked up the vertex of a device under its bdfid, the module asserts that the
vertex is a PCI device; it sets the type afterwards, where ROCm does so before. The
vertex is one only if another module has made it so, and nothing makes that module run
before, succeed or find the device under the same bdfid.

* `addNvmlDeviceChecked`: the loop with the assertion, which `foldlM_of_checked` connects
  with `addNvmlDevice`.
* `ModuleSource.ops_bdfid`: what modules of `init_order::FIRST` do to PCI devices.
* `HwlocApi.parent_chain`: an object is below the machine.
* `nvmlAssertion_iff`: when every device that gets to the assertion is coupled to the
  vertex that hwloc has made for it.
-/

namespace Yloc

open Relation

variable {n : ℕ}

/-! ### The loop with the assertion -/

/-- What ends the loop over the devices early. -/
inductive NvmlStop where
  | abort (e : Abort)
  | assertion
  deriving DecidableEq, Repr

/-- The body of the loop over the devices up to the assertion. -/
def atNvmlAssertion (g : Graph n) (device : NvmlDevice) : Except Abort (Graph n × VertexT) :=
  match (nvmlAdapter n device).bdfid with
  | none => .error .badOptionalAccess
  | some bdfid =>
      let (vd, g) := g.addVertexId (bdfidId bdfid)
      .ok (g.modify vd (GraphElement.addAdapter (nvmlAdapter n device)), vd)

/-- What is asserted. -/
def nvmlAssertion (g : Graph n) (vd : VertexT) : Bool := (g.vertex vd).mType.isA .pciDevice

/-- The body of the loop over the devices, with the assertion. -/
def addNvmlDeviceChecked (state : Graph n × List VertexT) (device : NvmlDevice) :
    Except NvmlStop (Graph n × List VertexT) :=
  match atNvmlAssertion state.1 device with
  | .error e => .error (.abort e)
  | .ok (g, vd) =>
      if nvmlAssertion g vd then .ok (g.modify vd (GraphElement.setType .gpu), state.2 ++ [vd])
      else .error .assertion

/-- On the graph `g`, the loop gets to the assertion for the device at `k`, where the
graph is `g'` and the vertex of the device is `vd`. -/
def NvmlSource.ReachesAssertion (source : NvmlSource) (g : Graph n) (k : ℕ) (device : NvmlDevice)
    (g' : Graph n) (vd : VertexT) : Prop :=
  source.devices[k]? = some device ∧
    ∃ state, (source.devices.take k).foldlM addNvmlDeviceChecked (g, []) = .ok state ∧
      atNvmlAssertion state.1 device = .ok (g', vd)

/-- The changes to the vertex are those of `addNvmlDevice`. -/
lemma modify_setType_addAdapter (g : Graph n) (vd : VertexT) (device : NvmlDevice) :
    (g.modify vd (GraphElement.addAdapter (nvmlAdapter n device))).modify vd
      (GraphElement.setType .gpu) = g.modify vd (contributeNvml device) := by
  rw [Graph.modify, Graph.modify, Graph.modify, List.modify_modify_eq]
  rfl

/-- A round in which the assertion holds is one without it. -/
lemma addNvmlDevice_of_checked {state state' : Graph n × List VertexT} {device : NvmlDevice}
    (h : addNvmlDeviceChecked state device = .ok state') :
    addNvmlDevice state device = .ok state' := by
  rw [addNvmlDeviceChecked, atNvmlAssertion] at h
  rw [addNvmlDevice]
  cases hbdfid : (nvmlAdapter n device).bdfid with
  | none =>
      rw [hbdfid] at h
      cases h
  | some bdfid =>
      rw [hbdfid] at h
      simp only at h ⊢
      split at h
      · rw [← modify_setType_addAdapter]
        exact congrArg Except.ok (Except.ok.inj h)
      · cases h

/-- **The loop in which the assertions hold is that without them.** -/
theorem foldlM_of_checked {devices : List NvmlDevice} {state state' : Graph n × List VertexT}
    (h : devices.foldlM addNvmlDeviceChecked state = .ok state') :
    devices.foldlM addNvmlDevice state = .ok state' := by
  induction devices generalizing state with
  | nil => exact congrArg Except.ok (Except.ok.inj h)
  | cons device devices ih =>
      rw [List.foldlM_cons] at h ⊢
      obtain ⟨state₁, hround, hrest⟩ := Except.exists_of_bind h
      rw [addNvmlDevice_of_checked hround]
      exact ih hrest

section

variable {source : NvmlSource} {g g' : Graph n} {k : ℕ} {device : NvmlDevice} {vd : VertexT}

/-- A device whose query fails does not get to the assertion. -/
lemma pciInfo_of_atNvmlAssertion (h : atNvmlAssertion g device = .ok (g', vd)) :
    device.pciInfo.isSome := by
  rw [Option.isSome_iff_ne_none]
  intro hpci
  rw [atNvmlAssertion, nvmlAdapter, hpci] at h
  cases h

/-- Any other device does. -/
lemma exists_atNvmlAssertion (g : Graph n) (hpci : device.pciInfo.isSome) :
    ∃ g' vd, atNvmlAssertion g device = .ok (g', vd) := by
  obtain ⟨pci, hpci⟩ := Option.isSome_iff_exists.mp hpci
  rw [atNvmlAssertion, nvmlAdapter, hpci]
  exact ⟨_, _, rfl⟩

/-- The queries for the devices before one that gets to the assertion have succeeded. -/
lemma NvmlSource.ReachesAssertion.pciInfo (h : source.ReachesAssertion g k device g' vd) :
    ∀ d ∈ source.devices.take k, d.pciInfo.isSome := by
  obtain ⟨-, state, hloop, -⟩ := h
  refine foldlM_ok_forall (fun state d state' hround => ?_) hloop
  rw [addNvmlDeviceChecked] at hround
  cases hat : atNvmlAssertion state.1 d with
  | error e =>
      rw [hat] at hround
      cases hround
  | ok result => exact pciInfo_of_atNvmlAssertion hat

/-- **The devices that can get to the assertion**: those up to the first whose query
fails. -/
theorem NvmlSource.ReachesAssertion.mem_takeWhile (h : source.ReachesAssertion g k device g' vd) :
    device ∈ source.devices.takeWhile fun d => d.pciInfo.isSome := by
  have hbefore := h.pciInfo
  obtain ⟨hdevice, state, -, hat⟩ := h
  have hsplit : source.devices.take k ++ device :: source.devices.drop (k + 1) =
      source.devices := by
    obtain ⟨hk, rfl⟩ := List.getElem?_eq_some_iff.mp hdevice
    rw [← List.drop_eq_getElem_cons hk, List.take_append_drop]
  rw [← hsplit, List.takeWhile_append_of_pos hbefore,
    List.takeWhile_cons, if_pos (pciInfo_of_atNvmlAssertion hat)]
  exact List.mem_append_right _ List.mem_cons_self

/-- After a loop over the devices before it, a device gets to the assertion. -/
lemma NvmlSource.exists_reachesAssertion_of_loop {before after : List NvmlDevice}
    (hdevices : source.devices = before ++ device :: after) {state : Graph n × List VertexT}
    (hloop : before.foldlM addNvmlDeviceChecked (g, []) = .ok state)
    (hpci : device.pciInfo.isSome) :
    ∃ g' vd, source.ReachesAssertion g before.length device g' vd ∧
      atNvmlAssertion state.1 device = .ok (g', vd) := by
  obtain ⟨g', vd, hat⟩ := exists_atNvmlAssertion state.1 hpci
  refine ⟨g', vd, ⟨?_, state, ?_, hat⟩, hat⟩
  · rw [hdevices, List.getElem?_append_right le_rfl, Nat.sub_self]
    rfl
  · rwa [hdevices, List.take_left]

/-- **They all get there** if no assertion fails. -/
theorem NvmlSource.exists_reachesAssertion
    (hholds : ∀ k device g' vd, source.ReachesAssertion g k device g' vd →
      nvmlAssertion g' vd = true)
    (hdevice : device ∈ source.devices.takeWhile fun d => d.pciInfo.isSome) :
    ∃ k g' vd, source.ReachesAssertion g k device g' vd := by
  -- the loop gets through the devices before it
  have hloop : ∀ before after, source.devices = before ++ after →
      (∀ d ∈ before, d.pciInfo.isSome) →
        ∃ state, before.foldlM addNvmlDeviceChecked (g, []) = .ok state := by
    intro before
    induction before using List.reverseRecOn with
    | nil => exact fun _ _ _ => ⟨_, rfl⟩
    | append_singleton before d ih =>
        intro after hdevices hpci
        rw [List.append_assoc, List.singleton_append] at hdevices
        obtain ⟨state, hstate⟩ := ih _ hdevices fun d hd => hpci d (List.mem_append_left _ hd)
        obtain ⟨g', vd, hreach, hat⟩ := NvmlSource.exists_reachesAssertion_of_loop hdevices hstate
          (hpci d (by simp))
        refine ⟨(g'.modify vd (GraphElement.setType .gpu), state.2 ++ [vd]), ?_⟩
        rw [List.foldlM_append, hstate]
        change [d].foldlM addNvmlDeviceChecked state = _
        rw [List.foldlM_cons, addNvmlDeviceChecked, hat]
        simp only [hholds _ _ _ _ hreach, if_true]
        rfl
  obtain ⟨before, after, hsplit⟩ := List.append_of_mem hdevice
  have hpci : ∀ d ∈ before ++ device :: after, d.pciInfo.isSome := by
    rw [← hsplit]
    exact fun d hd => List.mem_takeWhile_imp (p := fun d : NvmlDevice => d.pciInfo.isSome) hd
  obtain ⟨rest, hrest⟩ := List.takeWhile_prefix (l := source.devices)
    fun d : NvmlDevice => d.pciInfo.isSome
  rw [hsplit, List.append_assoc, List.cons_append] at hrest
  obtain ⟨state, hstate⟩ := hloop before _ hrest.symm fun d hd => hpci d (by simp [hd])
  obtain ⟨g', vd, hreach, -⟩ := NvmlSource.exists_reachesAssertion_of_loop hrest.symm hstate
    (hpci device (by simp))
  exact ⟨_, g', vd, hreach⟩

end

/-! ### What the modules do to PCI devices -/

/-- **What modules of order FIRST put on a PCI device**: an object of hwloc with its
bdfid, or a GPU. -/
theorem ModuleSource.ops_bdfid {source : ModuleSource} {s : ℕ} {b : UInt64}
    {f : Vertex n → Vertex n} (h : .put (bdfidKey b) f ∈ source.ops s) :
    (∃ hw obj, source = .hwloc hw ∧ hw.checkHwlocApiVersion = .success ∧
      obj ∈ hw.children.objects ∧ (hw.api.hwloc2YlocType obj).isA .pciDevice = true ∧
        hw.api.bdfid obj = some b ∧ f = hw.api.contribute obj) ∨
    (∃ device index, f = contributeRocm device index) ∨ ∃ device, f = contributeNvml device := by
  cases source with
  | hwloc hw =>
      rw [ModuleSource.ops] at h
      split at h
      · next hversion =>
          rcases List.mem_cons.mp h with hop | h
          · cases hop
          · rcases HwlocApi.mem_hwlocOps h with ⟨obj, i, hobj, hop⟩ | ⟨a, b', hop⟩
            · obtain ⟨hkey, rfl⟩ := TopologyOp.put.inj hop
              rw [HwlocApi.hwlocKey] at hkey
              split at hkey
              · next hpci =>
                  rw [Key.name.injEq, bdfidId_inj] at hkey
                  have hb : hw.api.bdfid obj = some b := by rw [hkey, Option.some_get]
                  have hmem := List.fst_mem_of_mem_zipIdx hobj
                  exact .inl ⟨hw, obj, rfl, hversion, hmem, hpci, hb, rfl⟩
              · cases hkey
            · cases hop
      · cases h
  | mpi source => cases h
  | superMUC source =>
      rw [ModuleSource.ops] at h
      split at h
      · rcases mem_supermucOps h with ⟨hostname, hop⟩ | ⟨name, hop⟩ | ⟨name, b, hop⟩
        · exact absurd (Key.name.inj (TopologyOp.put.inj hop).1).symm (machineId_ne_bdfidId _ _)
        · exact absurd (Key.name.inj (TopologyOp.put.inj hop).1).symm (systemId_ne_bdfidId _ _)
        · cases hop
      · cases h
  | rocm source =>
      rcases RocmSource.mem_ops h with ⟨b', device, index, -, -, hop⟩ | ⟨b', b'', hop⟩
      · exact .inr (.inl ⟨device, index, (TopologyOp.put.inj hop).2⟩)
      · cases hop
  | nvml source =>
      rcases List.mem_append.mp h with h | h
      · obtain ⟨b', device, hop⟩ := mem_nvmlPuts h
        exact .inr (.inr ⟨device, (TopologyOp.put.inj hop).2⟩)
      · obtain ⟨a, -, b', -, hop⟩ := mem_peerOps h
        cases hop

/-- What holds of a vertex that modules of order FIRST have made for the bdfid `b`. -/
structure BdfidVertex (b : UInt64) (x : Vertex n) : Prop where
  type : x.mType.isA .pciDevice = true
  /-- The adapters of hwloc are of that bdfid. -/
  adapters : ∀ a ∈ x.mAdapters, ∀ addr, a.mObj = .hwlocObj addr → a.bdfid = some b

/-- A vertex without a type gets one, and that of a PCI device stays one. -/
lemma BdfidVertex.put {source : ModuleSource} {s : ℕ} {b : UInt64} {f : Vertex n → Vertex n}
    (hop : .put (bdfidKey b) f ∈ source.ops s) {x : Vertex n} (hx : x = {} ∨ BdfidVertex b x) :
    BdfidVertex b (f x) := by
  have hold : ∀ a ∈ x.mAdapters, ∀ addr, a.mObj = .hwlocObj addr → a.bdfid = some b := by
    rcases hx with rfl | hx
    · exact fun a ha => absurd ha (by simp)
    · exact hx.adapters
  -- adapters of other modules are not of hwloc
  have hgpu : ∀ c : Adapter n, (∀ addr, c.mObj ≠ .hwlocObj addr) →
      ∀ a ∈ x.mAdapters ++ [c], ∀ addr, a.mObj = .hwlocObj addr → a.bdfid = some b := by
    intro c hc a ha addr hobj
    rcases List.mem_append.mp ha with ha | ha
    · exact hold a ha addr hobj
    · rw [List.mem_singleton.mp ha] at hobj
      exact absurd hobj (hc addr)
  rcases ModuleSource.ops_bdfid hop with ⟨hw, obj, -, -, -, hpci, hb, rfl⟩ | ⟨device, index, rfl⟩ |
    ⟨device, rfl⟩
  · refine ⟨?_, fun a ha addr hobj => ?_⟩
    · rw [HwlocApi.contribute_mType]
      rcases hx with rfl | hx
      · exact hpci
      · split
        · exact hpci
        · exact hx.type
    · rw [HwlocApi.contribute, GraphElement.setTypeIfUnknown_mAdapters,
        GraphElement.addAdapter_mAdapters, GraphElement.describeIfEmpty_mAdapters] at ha
      rcases List.mem_append.mp ha with ha | ha
      · exact hold a ha addr hobj
      · rw [List.mem_singleton.mp ha]
        exact hb
  · exact ⟨rfl, hgpu _ fun addr h => by cases h⟩
  · exact ⟨rfl, hgpu _ fun addr h => by cases h⟩

/-- **What modules of order FIRST make for bdfids** are such vertices. -/
theorem Topology.bdfidVertex_run {ops : List (TopologyOp n)}
    (hops : ∀ op ∈ ops, ∃ source : ModuleSource, ∃ s, op ∈ source.ops s) {b : UInt64}
    {x : Vertex n} (hx : (Topology.run ops Keyed.empty).info (bdfidKey b) = some x) :
    BdfidVertex b x := by
  refine Topology.info_run (P := fun k x => ∀ b, k = bdfidKey b → BdfidVertex b x) ?_
    (fun k x hinfo => by cases hinfo) _ x hx b rfl
  rintro k f hf y hy b rfl
  obtain ⟨source, s, hop⟩ := hops _ hf
  exact BdfidVertex.put hop (hy.imp_right fun hy => hy b rfl)

/-! ### Objects are below the machine -/

/-- An operation adds a PARENT edge. -/
lemma Topology.parent_of_mem {ops : List (TopologyOp n)} {a b : Key} (h : .child a b ∈ ops)
    (T : Topology n) : Arc.Step .parent (T.run ops).arcs b a := by
  obtain ⟨before, after, rfl⟩ := List.append_of_mem h
  rw [Topology.run, runOps_append, runOps_cons]
  refine Topology.run_arcs_mono after ?_
  simp [TopologyOp.act]

/-- PARENT edges lead from an object to the vertex below which it is visited. -/
theorem HwlocApi.parent_chain (api : HwlocApi) {R : Key → Key → Prop} {s : ℕ} {k : Key}
    {children : HwlocChildren}
    (hR : ∀ a b, .child a b ∈ (api.hwlocOps s k children : List (TopologyOp n)) → R b a) {i : ℕ}
    {obj : HwlocObj} (h : children.objects[i]? = some obj) :
    ∃ p, R (api.hwlocKey (s + i) obj) p ∧ ReflTransGen R p k := by
  induction children generalizing s k i with
  | nil => cases h
  | cons child children next ihc ihn =>
      rw [HwlocApi.hwlocOps] at hR
      simp only [List.mem_cons, List.mem_append, reduceCtorEq, false_or] at hR
      have hchild : R (api.hwlocKey s child) k := hR _ _ (.inl rfl)
      cases i with
      | zero =>
          obtain rfl := Option.some.inj h
          exact ⟨k, hchild, .refl⟩
      | succ i =>
          rw [HwlocChildren.objects, List.getElem?_cons_succ] at h
          by_cases hi : i < children.objects.length
          · rw [List.getElem?_append_left hi] at h
            obtain ⟨p, hp, hreach⟩ := ihc (fun a b hop => hR a b (.inr (.inl hop))) h
            rw [show s + (i + 1) = s + 1 + i by omega]
            exact ⟨p, hp, hreach.tail hchild⟩
          · rw [List.getElem?_append_right (not_lt.mp hi)] at h
            rw [show s + (i + 1) =
              s + 1 + children.objects.length + (i - children.objects.length) by omega]
            exact ihn (fun a b hop => hR a b (.inr (.inr hop))) h

/-! ### The vertex at the assertion -/

/-- The object is the PCI device at the address `a`. -/
def HwlocObj.IsDeviceAt (obj : HwlocObj) (a : PciAddress) : Prop :=
  obj.type = .pciDevice ∧ obj.attrs.pcidev = a.toHwloc

/-- hwloc succeeds and finds the PCI device at the address `a`. -/
def HwlocSource.Finds (source : HwlocSource) (a : PciAddress) : Prop :=
  source.checkHwlocApiVersion = .success ∧ ∃ obj ∈ source.children.objects, obj.IsDeviceAt a

/-- The vertex `vd` passes the assertion, hwloc, one of the modules `sources`, has made it
for the device at the address `a`, and PARENT edges lead from it to the machine. -/
structure Graph.CoupledTo (g : Graph n) (sources : List ModuleSource) (a : PciAddress)
    (vd : VertexT) : Prop where
  assertion : nvmlAssertion g vd = true
  device : ∃ hw obj, .hwloc hw ∈ sources ∧ hw.checkHwlocApiVersion = .success ∧
    obj ∈ hw.children.objects ∧ obj.IsDeviceAt a ∧
    hw.api.hwlocAdapter n obj ∈ (g.vertex vd).mAdapters ∧
    ∃ p root, g.lookup (machineId hw.hostname) = some root ∧ Arc.Step .parent g.edges vd p ∧
      ReflTransGen (Arc.Step .parent g.edges) p root

/-- The operations before an assertion: those of the modules `sources` that have run and
of the loop over `devices`. -/
def opsBeforeAssertion (sources : List ModuleSource) (devices : List NvmlDevice) :
    List (TopologyOp n) :=
  sourcesOps 0 sources ++ nvmlPuts devices

/-- They are operations of modules. -/
lemma mem_opsBeforeAssertion {sources : List ModuleSource} {devices : List NvmlDevice}
    {op : TopologyOp n} (h : op ∈ opsBeforeAssertion sources devices) :
    ∃ source : ModuleSource, ∃ s, op ∈ source.ops s := by
  rcases List.mem_append.mp h with hop | hop
  · exact (mem_sourcesOps hop).imp fun source h => h.2
  · exact ⟨.nvml { nvmlInit := true, devices := devices, p2pStatusOk := fun _ _ => false }, 0,
      List.mem_append_left _ hop⟩

/-- They are all of those of hwloc if it is one of the modules and succeeds. -/
lemma exists_subset_opsBeforeAssertion {hw : HwlocSource} {sources : List ModuleSource}
    (hmem : .hwloc hw ∈ sources) (hversion : hw.checkHwlocApiVersion = .success)
    (devices : List NvmlDevice) :
    ∃ s, (hw.ops s : List (TopologyOp n)) ⊆ opsBeforeAssertion sources devices := by
  obtain ⟨s, hsubset⟩ := subset_sourcesOps (n := n) hmem 0
  refine ⟨s, fun op hop => List.mem_append_left _ (hsubset ?_)⟩
  rwa [ModuleSource.ops, if_pos hversion]

/-- A device with function number zero that hwloc finds has one key for both modules. -/
lemma exists_hwlocKey_eq (api : HwlocApi) {children : HwlocChildren} {obj : HwlocObj}
    (hobj : obj ∈ children.objects) {a : PciAddress} (hdevice : obj.IsDeviceAt a)
    (hzero : a.function = 0) (s : ℕ) : ∃ i, children.objects[i]? = some obj ∧
      api.hwlocKey (s + i) obj = bdfidKey (bdfidGet a.toNvml) := by
  obtain ⟨i, hi⟩ := List.getElem?_of_mem hobj
  obtain ⟨b, hb, hvalue⟩ := PciAddress.bdfid_toHwloc api hdevice.1 hdevice.2
  have hbdfid : b = bdfidGet a.toNvml := by
    rw [← UInt64.toNat_inj, hvalue, PciAddress.bdfidGet_toNvml, PciAddress.value_inj,
      PciAddress.slot, ← hzero]
  exact ⟨i, hi, hbdfid ▸ HwlocApi.hwlocKey_of_bdfid hdevice.1 hb (s + i)⟩

/-- The graph at the assertion has the adapter of the device on the vertex of its bdfid. -/
theorem NvmlSource.ReachesAssertion.represents {source : NvmlSource} {φ : Key → Option VertexT}
    {g g' : Graph n} {k : ℕ} {device : NvmlDevice} {vd : VertexT} {sources : List ModuleSource}
    (h : source.ReachesAssertion g k device g' vd)
    (hrep : Represents φ g (Topology.run (sourcesOps 0 sources) Keyed.empty)) :
    ∃ φ' pci, device.pciInfo = some pci ∧ φ' (bdfidKey (bdfidGet pci)) = some vd ∧
      Represents φ' g' ((TopologyOp.put (bdfidKey (bdfidGet pci))
        (GraphElement.addAdapter (nvmlAdapter n device))).act
          (Topology.run (opsBeforeAssertion sources (source.devices.take k)) Keyed.empty)) := by
  have hbefore := h.pciInfo
  obtain ⟨-, state, hloop, hat⟩ := h
  obtain ⟨φ₁, g₁, vertices, hrun, hadv, -⟩ := addNvmlDevices_advance _ hbefore hrep .nil
  obtain rfl := Except.ok.inj (hrun.symm.trans (foldlM_of_checked hloop))
  obtain ⟨pci, hpci⟩ := Option.isSome_iff_exists.mp (pciInfo_of_atNvmlAssertion hat)
  have hbdfid : (nvmlAdapter n device).bdfid = some (bdfidGet pci) := by
    rw [nvmlAdapter, hpci]
    rfl
  obtain ⟨φ₂, vd₂, g₂, hvertex, hvd, hadv₂⟩ := hadv.rep.addVertexId (bdfidId (bdfidGet pci))
  rw [atNvmlAssertion, hbdfid] at hat
  simp only [hvertex] at hat
  cases hat
  refine ⟨φ₂, pci, hpci, hvd, ?_⟩
  rw [opsBeforeAssertion, Topology.run, runOps_append]
  exact hadv₂.rep.modify hvd _

section

variable {φ : Key → Option VertexT} {g : Graph n} {sources : List ModuleSource}
  {devices : List NvmlDevice} {device : NvmlDevice} {a : PciAddress} {vd : VertexT}
  (hvd : φ (bdfidKey (bdfidGet a.toNvml)) = some vd)
  (hrep : Represents φ g ((TopologyOp.put (bdfidKey (bdfidGet a.toNvml))
    (GraphElement.addAdapter (nvmlAdapter n device))).act
      (Topology.run (opsBeforeAssertion sources devices) Keyed.empty)))

include hvd hrep

/-- The vertex at the assertion is what the modules have left, with the adapter. -/
lemma vertex_atAssertion : g.vertex vd =
    (((Topology.run (opsBeforeAssertion sources devices) Keyed.empty).info
      (bdfidKey (bdfidGet a.toNvml))).getD {}).addAdapter (nvmlAdapter n device) := by
  have hinfo := hrep.info_vertex hvd
  rw [TopologyOp.put_info_self, Option.some.injEq] at hinfo
  exact hinfo.symm

/-- The device has function number zero if hwloc has made the vertex for it. -/
lemma function_of_adapter {api : HwlocApi} {obj : HwlocObj} (hdevice : obj.IsDeviceAt a)
    (hadapter : api.hwlocAdapter n obj ∈ (g.vertex vd).mAdapters) : a.function = 0 := by
  rw [vertex_atAssertion hvd hrep, GraphElement.addAdapter_mAdapters] at hadapter
  rcases List.mem_append.mp hadapter with hadapter | hadapter
  · cases hinfo : (Topology.run (opsBeforeAssertion sources devices)
        (Keyed.empty : Topology n)).info (bdfidKey (bdfidGet a.toNvml)) with
    | none =>
        rw [hinfo] at hadapter
        exact absurd hadapter (by simp)
    | some x =>
        rw [hinfo, Option.getD_some] at hadapter
        have hx : BdfidVertex (bdfidGet a.toNvml) x :=
          Topology.bdfidVertex_run (fun op hop => mem_opsBeforeAssertion hop) hinfo
        -- both encodings of the address are the bdfid of the vertex
        obtain ⟨b, hb, hvalue⟩ := PciAddress.bdfid_toHwloc api hdevice.1 hdevice.2
        have hbdfid : some b = some (bdfidGet a.toNvml) :=
          hb.symm.trans (hx.adapters _ hadapter _ rfl)
        rw [Option.some.inj hbdfid, PciAddress.bdfidGet_toNvml, PciAddress.value_inj] at hvalue
        rw [← hvalue]
        rfl
  · exact absurd (congrArg Adapter.mObj (List.mem_singleton.mp hadapter)) (by
      simp [HwlocApi.hwlocAdapter, nvmlAdapter])

/-- A device with function number zero that hwloc finds is coupled to its vertex. -/
lemma coupledTo_of_finds (hzero : a.function = 0) {hw : HwlocSource} (hmem : .hwloc hw ∈ sources)
    (hfinds : hw.Finds a) : g.CoupledTo sources a vd := by
  obtain ⟨hversion, obj, hobj, hdevice⟩ := hfinds
  obtain ⟨s, hops⟩ := exists_subset_opsBeforeAssertion (n := n) hmem hversion devices
  obtain ⟨i, hi, hkey⟩ := exists_hwlocKey_eq hw.api hobj hdevice hzero s
  -- the vertex that hwloc makes, with its adapter and a type
  have hput := hw.api.put_mem_hwlocOps (n := n) hi s (machineKey hw.hostname)
  rw [hkey] at hput
  have hadds : ∀ v, hw.api.hwlocAdapter n obj ∈ (hw.api.contribute obj v).mAdapters := fun v => by
    simp [HwlocApi.contribute]
  obtain ⟨x, hx, hadapter⟩ := Topology.adapter_of_mem (T := (Keyed.empty : Topology n))
    (fun op hop => mem_opsBeforeAssertion hop) (hops (List.mem_cons_of_mem _ hput)) hadds
  have htype : BdfidVertex (bdfidGet a.toNvml) x :=
    Topology.bdfidVertex_run (fun op hop => mem_opsBeforeAssertion hop) hx
  have hvertex := vertex_atAssertion hvd hrep
  rw [hx, Option.getD_some] at hvertex
  -- the PARENT edges from the object to the machine
  obtain ⟨p, hp, hreach⟩ := hw.api.parent_chain (fun c d hop =>
    Topology.parent_of_mem (hops (List.mem_cons_of_mem _ hop)) Keyed.empty) hi
  rw [hkey] at hp
  obtain ⟨-, parentVd, hparentVd⟩ := hrep.ends _ hp
  obtain ⟨rootVd, hrootVd⟩ : ∃ v, φ (machineKey hw.hostname) = some v := by
    refine hrep.exists_place ?_
    rw [TopologyOp.put_info_of_ne (by simp), Topology.run_info_isSome]
    exact .inr (List.mem_filterMap.mpr ⟨_, hops List.mem_cons_self, rfl⟩)
  refine ⟨?_, hw, obj, hmem, hversion, hobj, hdevice, ?_, parentVd, rootVd, ?_, ?_, ?_⟩
  · rw [nvmlAssertion, hvertex]
    exact htype.type
  · rw [hvertex]
    exact List.mem_append_left _ hadapter
  · rw [hrep.ids, hrootVd]
  · exact (hrep.step_iff hvd hparentVd).mpr hp
  · exact (hrep.reach_iff hparentVd hrootVd).mpr hreach

end

/-- **When the vertex at an assertion is the one that hwloc has made for the device**: the
function number is zero, and hwloc has found the device. -/
theorem NvmlSource.ReachesAssertion.coupledTo_iff {source : NvmlSource} {φ : Key → Option VertexT}
    {g g' : Graph n} {k : ℕ} {device : NvmlDevice} {vd : VertexT} {sources : List ModuleSource}
    (h : source.ReachesAssertion g k device g' vd)
    (hrep : Represents φ g (Topology.run (sourcesOps 0 sources) Keyed.empty)) {a : PciAddress}
    (haddress : ∀ pci, device.pciInfo = some pci → pci = a.toNvml) :
    g'.CoupledTo sources a vd ↔ a.function = 0 ∧ ∃ hw, .hwloc hw ∈ sources ∧ hw.Finds a := by
  obtain ⟨φ', pci, hpci, hvd, hrep'⟩ := h.represents hrep
  obtain rfl := haddress pci hpci
  constructor
  · rintro ⟨-, hw, obj, hmem, hversion, hobj, hdevice, hadapter, -⟩
    exact ⟨function_of_adapter hvd hrep' hdevice hadapter, hw, hmem, hversion, obj, hobj, hdevice⟩
  · rintro ⟨hzero, hw, hmem, hfinds⟩
    exact coupledTo_of_finds hvd hrep' hzero hmem hfinds

/-- **When the assertions hold and every device is coupled to the vertex that hwloc has
made for it**: each device up to the first whose query fails has function number zero,
and hwloc has run before, succeeded and found it. -/
theorem nvmlAssertion_iff (S : StdSort VertexT) (S' : StdSort Module) {modules : List Module}
    {before after : List ModuleSource} {nvml : NvmlSource} (address : NvmlDevice → PciAddress)
    (haddress : ∀ device ∈ nvml.devices, ∀ pci, device.pciInfo = some pci →
      pci = (address device).toNvml)
    (horder : enabledSources (sortModules S' modules) = before ++ .nvml nvml :: after)
    {g : Graph n} (hrun : runSources S before {} = .ok g) :
    (∀ k device g' vd, nvml.ReachesAssertion g k device g' vd →
      g'.CoupledTo before (address device) vd) ↔
    ∀ device ∈ nvml.devices.takeWhile fun device => device.pciInfo.isSome,
      (address device).function = 0 ∧ ∃ hw, .hwloc hw ∈ before ∧ hw.Finds (address device) := by
  have hfirst := isFirst_of_runSources (initOrder_of_before S' horder rfl) hrun
  obtain ⟨φ, g₀, hrun₀, hrep, -, -⟩ := runSources_represents (n := n) S hfirst Represents.empty
    (s := 0) fun i _ => rfl
  obtain rfl := Except.ok.inj (hrun₀.symm.trans hrun)
  have hcoupled : ∀ {k device g' vd}, nvml.ReachesAssertion g₀ k device g' vd →
      (g'.CoupledTo before (address device) vd ↔
        (address device).function = 0 ∧ ∃ hw, .hwloc hw ∈ before ∧ hw.Finds (address device)) :=
    fun h => h.coupledTo_iff hrep (haddress _ (List.mem_of_getElem? h.1))
  constructor
  · intro h device hdevice
    obtain ⟨k, g', vd, hreach⟩ := NvmlSource.exists_reachesAssertion
      (fun k device g' vd hreach => (h k device g' vd hreach).assertion) hdevice
    exact (hcoupled hreach).mp (h k device g' vd hreach)
  · intro h k device g' vd hreach
    exact (hcoupled hreach).mpr (h device hreach.mem_takeWhile)

/-- A machine with one device, on which hwloc has the version `libraryVersion`. -/
def pciMachine (libraryVersion : UInt32) : HwlocSource :=
  { smallMachine with
    libraryVersion := libraryVersion
    children := .cons (pciObj ⟨0, 3, 0, 0⟩) .nil .nil }

/-- NVML reports the same device. -/
def pciGpu : NvmlSource where
  nvmlInit := true
  devices := [gpuDevice ⟨0, 3, 0, 0⟩]
  p2pStatusOk _ _ := false

/-- If hwloc runs before and has the version that is asked for, the device is coupled. -/
theorem nvmlAssertion_iff_pciMachine :
    ∃ g : Graph 1, runSources .insertion [.hwloc (pciMachine 0x20900)] {} = .ok g ∧
      ∀ k device g' vd, pciGpu.ReachesAssertion g k device g' vd →
        g'.CoupledTo [.hwloc (pciMachine 0x20900)] ⟨0, 3, 0, 0⟩ vd := by
  refine ⟨((pciMachine 0x20900).initGraph {}).2, rfl, ?_⟩
  have horder : enabledSources (sortModules .insertion
      [⟨.hwloc (pciMachine 0x20900), true⟩, ⟨.nvml pciGpu, true⟩]) =
        [.hwloc (pciMachine 0x20900)] ++ .nvml pciGpu :: [] := rfl
  refine (nvmlAssertion_iff .insertion .insertion (fun _ => ⟨0, 3, 0, 0⟩) ?_ horder rfl).mpr ?_
  · intro device hdevice pci hpci
    obtain rfl := List.mem_singleton.mp hdevice
    exact (Option.some.inj hpci).symm
  · intro device _
    exact ⟨rfl, _, List.mem_cons_self, rfl, _, List.mem_cons_self, rfl, rfl⟩

/-- If hwloc has another version it fails, and the assertion with it. -/
theorem not_nvmlAssertion_pciMachine :
    enabledSources (sortModules .insertion
      [⟨.hwloc (pciMachine 0x10900), true⟩, ⟨.nvml pciGpu, true⟩]) =
        [.hwloc (pciMachine 0x10900)] ++ .nvml pciGpu :: [] ∧
    runSources .insertion [.hwloc (pciMachine 0x10900)] ({} : Graph 1) = .ok {} ∧
    ∃ g' vd, pciGpu.ReachesAssertion ({} : Graph 1) 0 (gpuDevice ⟨0, 3, 0, 0⟩) g' vd ∧
      nvmlAssertion g' vd = false := by
  exact ⟨rfl, rfl, _, 0, ⟨rfl, ({}, []), rfl, rfl⟩, rfl⟩

end Yloc
