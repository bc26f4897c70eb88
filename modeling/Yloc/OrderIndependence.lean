import Yloc.Exchange
import Yloc.Shape

/-!
The order of ModuleHwloc, ModuleRocm and ModuleSuperMUC does not matter.

The three are of the same `init_order`, so `std::sort` may leave them in any order.
Where two of them change the same vertex the changes can be exchanged: a GPU keeps
its type and name whether hwloc comes before or after (`contribute_contributeRocm`),
the local machine is described alike by hwloc and SuperMUC. What is left of the
order is the order of edges and adapters, and adapters of one vertex agree
(`AdapterAt.agree`), so that `get` does not see it.

* `HwlocSource.commute_rocm`, `HwlocSource.commute_supermuc`,
  `RocmSource.commute_supermuc`: the operations of any two of the modules.
* `initOrder_irrelevant`: the graphs of any two orders are isomorphic.
-/

namespace Yloc

variable {n : ℕ}

/-! ### Changes of the same vertex -/

/-- A GPU keeps the name and type that ROCm gives it. -/
lemma contribute_contributeRocm (api : HwlocApi) (obj : HwlocObj) {device : RocmDevice}
    (hname : device.name ≠ "") (index : ℕ) (v : Vertex n) :
    SameVertex (api.contribute obj (contributeRocm device index v))
      (contributeRocm device index (api.contribute obj v)) := by
  have hdesc : (contributeRocm device index v).mDescription ≠ "" := hname
  have htype : ((contributeRocm device index v).addAdapter (api.hwlocAdapter n obj)).mType ≠
      .unknownComponentType := fun h : Component.gpu = .unknownComponentType => by cases h
  rw [HwlocApi.contribute, GraphElement.describeIfEmpty_of_ne hdesc,
    GraphElement.setTypeIfUnknown_of_ne htype]
  refine ⟨rfl, rfl, ?_⟩
  simpa [contributeRocm, HwlocApi.contribute] using
    (List.Perm.swap _ _ []).append_left v.mAdapters

/-- The machine is a node with the name of the host for hwloc as for SuperMUC. -/
lemma contributeRoot_contributeSupermuc (source : HwlocSource) (v : Vertex n) :
    SameVertex (source.contributeRoot (contributeSupermuc .node source.hostname v))
      (contributeSupermuc .node source.hostname (source.contributeRoot v)) := by
  have htype : ((((contributeSupermuc .node source.hostname v).describe
      source.hostname).addAdapter (source.api.hwlocAdapter n source.root))).mType ≠
        .unknownComponentType := fun h : Component.node = .unknownComponentType => by cases h
  rw [HwlocSource.contributeRoot, GraphElement.setTypeIfUnknown_of_ne htype]
  refine ⟨rfl, rfl, ?_⟩
  simpa [contributeSupermuc, HwlocSource.contributeRoot] using
    (List.Perm.swap _ _ []).append_left v.mAdapters

/-! ### The operations of the modules -/

/-- The operations of hwloc: on the machine, on an object, and edges between
keys that are no components of the system. -/
lemma HwlocSource.mem_ops {source : HwlocSource} {op : TopologyOp n} (h : op ∈ source.ops 0) :
    op = .put (machineKey source.hostname) source.contributeRoot ∨
    (∃ obj i, (obj, i) ∈ source.children.objects.zipIdx ∧
      op = .put (source.api.hwlocKey i obj) (source.api.contribute obj)) ∨
    ∃ a b, op = .child a b ∧ ∀ name, a ≠ systemKey name ∧ b ≠ systemKey name := by
  have hkeys : ∀ k ∈ source.allKeys 0, ∀ name, k ≠ systemKey name := by
    rintro k hk name rfl
    rcases List.mem_cons.mp hk with hk | hk
    · exact machineId_ne_systemId _ _ (Key.name.inj hk).symm
    · rcases HwlocApi.mem_hwlocKeys hk with ⟨b, hb⟩ | ⟨i, -, hi⟩
      · exact systemId_ne_bdfidId _ _ (Key.name.inj hb)
      · cases hi
  rcases List.mem_cons.mp h with rfl | hop
  · exact .inl rfl
  · rcases HwlocApi.mem_hwlocOps hop with hput | ⟨a, b, rfl⟩
    · exact .inr (.inl hput)
    · have hsublist := HwlocSource.ops_child h
      exact .inr (.inr ⟨a, b, rfl, fun name =>
        ⟨hkeys a (hsublist.subset (by simp)) name, hkeys b (hsublist.subset (by simp)) name⟩⟩)

/-! ### The operations of two modules can be exchanged -/

section

variable {hw : HwlocSource} {rocm : RocmSource} {hostnames : List String} {op op' : TopologyOp n}

/-- No key of hwloc is one of the system. -/
lemma HwlocApi.hwlocKey_ne_systemKey (api : HwlocApi) (i : ℕ) (obj : HwlocObj) (name : String) :
    api.hwlocKey i obj ≠ systemKey name := by
  rw [hwlocKey]
  split
  · exact fun h => systemId_ne_bdfidId _ _ (Key.name.inj h).symm
  · exact fun h => by cases h

lemma HwlocApi.hwlocKey_ne_machineKey (api : HwlocApi) (i : ℕ) (obj : HwlocObj)
    (hostname : String) : api.hwlocKey i obj ≠ machineKey hostname := by
  rw [hwlocKey]
  split
  · exact fun h => machineId_ne_bdfidId _ _ (Key.name.inj h).symm
  · exact fun h => by cases h

theorem HwlocSource.commute_rocm (hnames : ∀ device ∈ rocm.devices, device.name ≠ "")
    (hop : op ∈ hw.ops 0) (hop' : op' ∈ rocm.ops) :
    CommuteUpTo Topology.Alike TopologyOp.act op op' := by
  have hE := Topology.alike_equivalence (n := n)
  rcases HwlocSource.mem_ops hop with rfl | ⟨obj, i, -, rfl⟩ | ⟨a, b, rfl, -⟩ <;>
    rcases RocmSource.mem_ops hop' with ⟨b, device, index, hmem, -, rfl⟩ | ⟨b, b', rfl⟩
  · refine TopologyOp.commute_put fun h => ?_
    exact absurd (Key.name.inj h) (machineId_ne_bdfidId _ _)
  · exact TopologyOp.commute_put_appends (TopologyOp.peer_appends _ _)
  · exact TopologyOp.commute_put fun _ => contribute_contributeRocm hw.api obj
      (hnames device (List.fst_mem_of_mem_zipIdx hmem)) index
  · exact TopologyOp.commute_put_appends (TopologyOp.peer_appends _ _)
  · exact (TopologyOp.commute_put_appends (TopologyOp.child_appends _ _)).symm hE
  · exact TopologyOp.commute_appends (TopologyOp.child_appends _ _) (TopologyOp.peer_appends _ _)

theorem HwlocSource.commute_supermuc (hop : op ∈ hw.ops 0) (hop' : op' ∈ supermucOps hostnames) :
    CommuteUpTo Topology.Alike TopologyOp.act op op' := by
  have hE := Topology.alike_equivalence (n := n)
  rcases HwlocSource.mem_ops hop with rfl | ⟨obj, i, -, rfl⟩ | ⟨a, b, rfl, hsystem⟩ <;>
    rcases mem_supermucOps hop' with ⟨hostname, rfl⟩ | ⟨name, rfl⟩ | ⟨name, b', rfl⟩
  · refine TopologyOp.commute_put fun h => ?_
    obtain rfl := machineId_inj.mp (Key.name.inj h)
    exact contributeRoot_contributeSupermuc hw
  · refine TopologyOp.commute_put fun h => ?_
    exact absurd (Key.name.inj h) (machineId_ne_systemId _ _)
  · exact TopologyOp.commute_put_childIfNew _ _ _ _
  · exact TopologyOp.commute_put fun h => absurd h (hw.api.hwlocKey_ne_machineKey i obj _)
  · exact TopologyOp.commute_put fun h => absurd h (hw.api.hwlocKey_ne_systemKey i obj _)
  · exact TopologyOp.commute_put_childIfNew _ _ _ _
  · exact (TopologyOp.commute_put_appends (TopologyOp.child_appends _ _)).symm hE
  · exact (TopologyOp.commute_put_appends (TopologyOp.child_appends _ _)).symm hE
  · -- the test of SuperMUC is for an edge out of a component of the system
    refine TopologyOp.commute_childIfNew (TopologyOp.child_appends _ _) fun e he hends => ?_
    simp only [List.mem_cons, List.not_mem_nil, or_false] at he
    rcases he with rfl | rfl
    · exact (hsystem name).1 hends.1
    · exact (hsystem name).2 hends.1

theorem RocmSource.commute_supermuc (hop : op ∈ rocm.ops) (hop' : op' ∈ supermucOps hostnames) :
    CommuteUpTo Topology.Alike TopologyOp.act op op' := by
  have hE := Topology.alike_equivalence (n := n)
  rcases RocmSource.mem_ops hop with ⟨b, device, index, -, -, rfl⟩ | ⟨b, b', rfl⟩ <;>
    rcases mem_supermucOps hop' with ⟨hostname, rfl⟩ | ⟨name, rfl⟩ | ⟨name, c, rfl⟩
  · refine TopologyOp.commute_put fun h => ?_
    exact absurd (Key.name.inj h).symm (machineId_ne_bdfidId _ _)
  · refine TopologyOp.commute_put fun h => ?_
    exact absurd (Key.name.inj h).symm (systemId_ne_bdfidId _ _)
  · exact TopologyOp.commute_put_childIfNew _ _ _ _
  · exact (TopologyOp.commute_put_appends (TopologyOp.peer_appends _ _)).symm hE
  · exact (TopologyOp.commute_put_appends (TopologyOp.peer_appends _ _)).symm hE
  · refine TopologyOp.commute_childIfNew (TopologyOp.peer_appends _ _) fun e he hends => ?_
    simp only [List.mem_cons, List.not_mem_nil, or_false] at he
    rcases he with rfl | rfl
    · exact systemId_ne_bdfidId _ _ (Key.name.inj hends.1).symm
    · exact systemId_ne_bdfidId _ _ (Key.name.inj hends.1).symm

end

/-! ### The adapters of a vertex agree -/

/-- The adapters that the modules put on the vertex of a key. -/
inductive AdapterAt (hw : HwlocSource) (rocm : RocmSource) : Key → Adapter n → Prop where
  | machine : AdapterAt hw rocm (machineKey hw.hostname) (hw.api.hwlocAdapter n hw.root)
  | object {obj : HwlocObj} {i : ℕ} (h : (obj, i) ∈ hw.children.objects.zipIdx) :
      AdapterAt hw rocm (hw.api.hwlocKey i obj) (hw.api.hwlocAdapter n obj)
  | device {device : RocmDevice} {index : ℕ} {b : UInt64}
      (h : (device, index) ∈ rocm.devices.zipIdx) (hb : ∀ id, device.pciId = some id → b = id) :
      AdapterAt hw rocm (bdfidKey b) (rocmAdapter n device index)
  | system (k : Key) (name : String) : AdapterAt hw rocm k (supermucAdapter n name)

/-- The names of SuperMUC answer no property. -/
lemma supermucAdapter_agree (name : String) (a : Adapter.Values n) :
    (supermucAdapter n name).toValues.Agree a := by
  simp [Adapter.Values.Agree, Adapter.map, supermucAdapter, Property.ofUInt64, Property.ofInt64,
    Property.ofMask]

/-- hwloc and ROCm both answer the bdfid of a PCI device, and nothing else. -/
lemma hwlocAdapter_agree_rocmAdapter {api : HwlocApi} {obj : HwlocObj}
    (hpci : obj.type = .pciDevice)
    {device : RocmDevice} {b : UInt64} (hobj : api.bdfid obj = some b)
    (hdevice : device.pciId = some b) (index : ℕ) :
    (api.hwlocAdapter n obj).toValues.Agree (rocmAdapter n device index).toValues := by
  obtain ⟨hicache, hdcache, hmemory⟩ := api.not_cache_memory obj.type (.inr hpci)
  have hcache : api.typeIsCache obj.type = false := by
    rw [api.typeIsCache_eq, hdcache, hicache]
    rfl
  simp [Adapter.Values.Agree, Adapter.map, HwlocApi.hwlocAdapter, rocmAdapter, Property.ofUInt64,
    Property.ofInt64, Property.ofMask, TypeId.denote, hcache, hmemory, hobj, hdevice]

/-- All queries for the bdfids of the devices succeed, with different answers. -/
def RocmSource.DistinctBdfids (source : RocmSource) : Prop :=
  ∃ bdfids : List UInt64, bdfids.Nodup ∧
    source.devices.map RocmDevice.pciId = bdfids.map some

/-- Devices with the same bdfid are the same device. -/
lemma RocmSource.DistinctBdfids.eq {source : RocmSource} (h : source.DistinctBdfids)
    {d d' : RocmDevice} {i i' : ℕ} (hd : (d, i) ∈ source.devices.zipIdx)
    (hd' : (d', i') ∈ source.devices.zipIdx) {b : UInt64}
    (hb : ∀ id, d.pciId = some id → b = id) (hb' : ∀ id, d'.pciId = some id → b = id) :
    d.pciId = some b ∧ (d, i) = (d', i') := by
  obtain ⟨bdfids, hnodup, hids⟩ := h
  have hlookup : ∀ {d : RocmDevice} {i : ℕ}, (d, i) ∈ source.devices.zipIdx →
      (∀ id, d.pciId = some id → b = id) → d.pciId = some b ∧ bdfids[i]? = some b := by
    intro d i hd hb
    have hi := List.mem_zipIdx_iff_getElem?.mp hd
    have hmap := congrArg (fun l => l[i]?) hids
    simp only [List.getElem?_map, hi, Option.map_some] at hmap
    obtain ⟨id, hid, heq⟩ := Option.map_eq_some_iff.mp hmap.symm
    obtain rfl := hb id heq.symm
    exact ⟨heq.symm, hid⟩
  obtain ⟨hpci, hi⟩ := hlookup hd hb
  obtain ⟨-, hi'⟩ := hlookup hd' hb'
  have hindex : i = i' := by
    obtain ⟨hlt, hget⟩ := List.getElem?_eq_some_iff.mp hi
    obtain ⟨hlt', hget'⟩ := List.getElem?_eq_some_iff.mp hi'
    exact (hnodup.getElem_inj_iff).mp (hget.trans hget'.symm)
  subst hindex
  rw [List.mem_zipIdx_iff_getElem?] at hd hd'
  simp only [hd, Option.some.injEq] at hd'
  exact ⟨hpci, by rw [hd']⟩

section

variable {hw : HwlocSource} {rocm : RocmSource}

/-- An object at the key of a PCI device is one. -/
lemma HwlocApi.of_hwlocKey_eq {api : HwlocApi} {i : ℕ} {obj : HwlocObj} {b : UInt64}
    (h : api.hwlocKey i obj = bdfidKey b) : obj.type = .pciDevice ∧ api.bdfid obj = some b := by
  rw [hwlocKey] at h
  split at h
  · next hpci =>
      have hb := bdfidId_inj.mp (Key.name.inj h)
      have hbdfid : api.bdfid obj = some b := by rw [← hb, Option.some_get]
      refine ⟨?_, hbdfid⟩
      rw [bdfid] at hbdfid
      split at hbdfid
      · next hsame => exact sameType_iff.mp hsame
      · cases hbdfid
  · cases h

/-- **Adapters of one vertex agree.** -/
theorem AdapterAt.agree (hhwloc : hw.DistinctBdfids) (hrocm : rocm.DistinctBdfids) {k : Key}
    {a a' : Adapter n} (h : AdapterAt hw rocm k a) (h' : AdapterAt hw rocm k a') :
    a.toValues.Agree a'.toValues := by
  generalize hk : k = k' at h'
  cases h with
  | system k name => exact supermucAdapter_agree name _
  | machine =>
      cases h' with
      | system k name => exact (supermucAdapter_agree name _).symm
      | machine => exact Adapter.Values.agree_refl _
      | object h' => exact absurd hk.symm (hw.api.hwlocKey_ne_machineKey _ _ _)
      | device h' hb' => exact absurd (Key.name.inj hk) (machineId_ne_bdfidId _ _)
  | @object obj i h =>
      cases h' with
      | system k name => exact (supermucAdapter_agree name _).symm
      | machine => exact absurd hk (hw.api.hwlocKey_ne_machineKey _ _ _)
      | object h' =>
          have heq := List.inj_on_of_nodup_map (HwlocApi.hwlocKeys_nodup hhwloc 0) h h' hk
          rw [(Prod.mk.inj heq).1]
          exact Adapter.Values.agree_refl _
      | device h' hb' =>
          obtain ⟨hpci, hbdfid⟩ := HwlocApi.of_hwlocKey_eq hk
          exact hwlocAdapter_agree_rocmAdapter hpci hbdfid (hrocm.eq h' h' hb' hb').1 _
  | device h hb =>
      cases h' with
      | system k name => exact (supermucAdapter_agree name _).symm
      | machine => exact absurd (Key.name.inj hk).symm (machineId_ne_bdfidId _ _)
      | object h' =>
          obtain ⟨hpci, hbdfid⟩ := HwlocApi.of_hwlocKey_eq hk.symm
          exact (hwlocAdapter_agree_rocmAdapter hpci hbdfid (hrocm.eq h h hb hb).1 _).symm
      | device h' hb' =>
          obtain rfl := bdfidId_inj.mp (Key.name.inj hk)
          obtain ⟨rfl, rfl⟩ := Prod.mk.inj (hrocm.eq h h' hb hb').2
          exact Adapter.Values.agree_refl _

/-- No adapter of the modules overrides `module_map`. -/
lemma AdapterAt.moduleMap_eq {k : Key} {a : Adapter n} (h : AdapterAt hw rocm k a) :
    a.moduleMap = Adapter.map := by
  cases h <;> rfl

end

/-- Adapters are put on vertices by the operations of a run. -/
lemma Topology.adapters_run {P : Key → Adapter n → Prop} {ops : List (TopologyOp n)}
    (hops : ∀ k f, .put k f ∈ ops → ∀ v a, a ∈ (f v).mAdapters → a ∈ v.mAdapters ∨ P k a)
    {T : Topology n} (hT : ∀ k x, T.info k = some x → ∀ a ∈ x.mAdapters, P k a) :
    ∀ k x, (T.run ops).info k = some x → ∀ a ∈ x.mAdapters, P k a := by
  refine Topology.info_run (fun k f hf x hx a ha => ?_) hT
  rcases hops k f hf x a ha with ha | ha
  · rcases hx with rfl | hx
    · cases ha
    · exact hx a ha
  · exact ha

/-! ### Two orders of the modules -/

/-- The graphs `g` and `g'` are the same with the vertex `v` of `g` at `f v`. -/
structure Graph.Iso (f : VertexT → VertexT) (g g' : Graph n) : Prop where
  bijOn : Set.BijOn f (Set.Iio g.numVertices) (Set.Iio g'.numVertices)
  /-- Identifiers are respected. -/
  lookup : ∀ id, g'.lookup id = (g.lookup id).map f
  edges : (g.edges.map (Arc.map f)).Perm g'.edges
  type : ∀ v < g.numVertices, (g.vertex v).mType = (g'.vertex (f v)).mType
  description : ∀ v < g.numVertices, (g.vertex v).mDescription = (g'.vertex (f v)).mDescription
  /-- The adapters wrap the same objects, those of hwloc among them. -/
  adapters : ∀ v < g.numVertices, (g.vertex v).mAdapters.Perm (g'.vertex (f v)).mAdapters
  get : ∀ v < g.numVertices, ∀ rt name, (g.vertex v).get rt name = (g'.vertex (f v)).get rt name

/-- With at most one hwloc module no other module looks at the numbers of the
objects. -/
lemma sourcesOps_eq_flatten {sources : List ModuleSource}
    (h : (sources.map ModuleSource.kind).Nodup) (s : ℕ) :
    (sourcesOps s sources : List (TopologyOp n)) =
      (sources.map (ModuleSource.ops s)).flatten := by
  have hother : ∀ (source : ModuleSource) (s s' : ℕ), source.kind ≠ .hwloc →
      (source.ops s : List (TopologyOp n)) = source.ops s' := by
    intro source s s' hkind
    cases source with
    | hwloc hw => exact absurd rfl hkind
    | _ => rfl
  induction sources generalizing s with
  | nil => rfl
  | cons source sources ih =>
      rw [List.map_cons, List.nodup_cons] at h
      rw [sourcesOps, ih h.2, List.map_cons, List.flatten_cons]
      congr 2
      refine List.map_congr_left fun source' hmem => ?_
      by_cases hkind : source.kind = .hwloc
      · refine hother source' _ _ fun hkind' => h.1 ?_
        rw [hkind, ← hkind']
        exact List.mem_map_of_mem hmem
      · have hcount : source.objectCount = 0 := by
          cases source with
          | hwloc hw => exact absurd rfl hkind
          | _ => rfl
        rw [hcount, Nat.add_zero]

section

variable {hw : HwlocSource} {rocm : RocmSource} {sm : SupermucSource}
  {sources sources' : List ModuleSource} {op : TopologyOp n}

lemma HwlocSource.respects (h : op ∈ hw.ops 0) : Respects Topology.Alike TopologyOp.act op := by
  rcases HwlocSource.mem_ops h with rfl | ⟨obj, i, -, rfl⟩ | ⟨a, b, rfl, -⟩
  · exact TopologyOp.respects_put _ fun v w hvw =>
      ((hvw.describe _).addAdapter _).setTypeIfUnknown _
  · exact TopologyOp.respects_put _ fun v w hvw =>
      ((hvw.describeIfEmpty _).addAdapter _).setTypeIfUnknown _
  · exact (TopologyOp.child_appends a b).respects

lemma RocmSource.respects (h : op ∈ rocm.ops) : Respects Topology.Alike TopologyOp.act op := by
  rcases RocmSource.mem_ops h with ⟨b, device, index, -, -, rfl⟩ | ⟨b, b', rfl⟩
  · exact TopologyOp.respects_put _ fun v w hvw => ((hvw.addAdapter _).describe _).setType _
  · exact (TopologyOp.peer_appends _ _).respects

lemma respects_supermucOps {hostnames : List String} (h : op ∈ supermucOps hostnames) :
    Respects Topology.Alike TopologyOp.act op := by
  have hput : ∀ (k : Key) (t : Component) (name : String), Respects Topology.Alike
      TopologyOp.act (.put k (contributeSupermuc t name) : TopologyOp n) := fun k t name =>
    TopologyOp.respects_put k fun v w hvw => ((hvw.setType t).describe name).addAdapter _
  rcases mem_supermucOps h with ⟨hostname, rfl⟩ | ⟨name, rfl⟩ | ⟨name, b, rfl⟩
  · exact hput _ _ _
  · exact hput _ _ _
  · exact TopologyOp.respects_childIfNew _ _

lemma ModuleSource.mem_ops_hwloc {s : ℕ} (h : op ∈ (ModuleSource.hwloc hw).ops s) :
    op ∈ hw.ops s := by
  rw [ModuleSource.ops] at h
  split at h
  · exact h
  · cases h

lemma ModuleSource.mem_ops_superMUC {s : ℕ} (h : op ∈ (ModuleSource.superMUC sm).ops s) :
    op ∈ supermucOps sm.hostnames := by
  rw [ModuleSource.ops] at h
  split at h
  · exact h
  · cases h

/-- The changes do not depend on the order, up to the orders of edges and adapters. -/
theorem sourcesOps_alike (hnames : ∀ device ∈ rocm.devices, device.name ≠ "")
    (hsources : sources.Perm [.hwloc hw, .rocm rocm, .superMUC sm])
    (hsources' : sources'.Perm [.hwloc hw, .rocm rocm, .superMUC sm]) :
    Topology.Alike (Topology.run (sourcesOps 0 sources) (Keyed.empty : Topology n))
      (Topology.run (sourcesOps 0 sources') Keyed.empty) := by
  have hE := Topology.alike_equivalence (n := n)
  -- any order makes the changes of one fixed order
  have hfixed : ∀ {sources : List ModuleSource},
      sources.Perm [.hwloc hw, .rocm rocm, .superMUC sm] →
      Topology.Alike (Topology.run ([ModuleSource.hwloc hw, .rocm rocm, .superMUC sm].map
          (ModuleSource.ops 0)).flatten (Keyed.empty : Topology n))
        (Topology.run (sourcesOps 0 sources) Keyed.empty) := by
    intro sources hperm
    have hkinds : (sources.map ModuleSource.kind).Nodup :=
      (hperm.map ModuleSource.kind).nodup_iff.mpr (by simp [ModuleSource.kind])
    rw [sourcesOps_eq_flatten hkinds]
    refine runOps_flatten_perm hE (hperm.symm.map _) ?_ ?_ _
    · simp only [List.map_cons, List.map_nil, List.mem_cons, List.not_mem_nil, or_false]
      rintro ops (rfl | rfl | rfl) op hop
      · exact HwlocSource.respects (ModuleSource.mem_ops_hwloc hop)
      · exact RocmSource.respects hop
      · exact respects_supermucOps (ModuleSource.mem_ops_superMUC hop)
    · simp only [List.map_cons, List.map_nil, List.pairwise_cons, List.mem_cons,
        List.not_mem_nil, or_false, forall_eq_or_imp, forall_eq, List.Pairwise.nil, and_true,
        IsEmpty.forall_iff, implies_true]
      refine ⟨⟨fun op hop op' hop' => ?_, fun op hop op' hop' => ?_⟩, fun op hop op' hop' => ?_⟩
      · exact HwlocSource.commute_rocm hnames (ModuleSource.mem_ops_hwloc hop) hop'
      · exact HwlocSource.commute_supermuc (ModuleSource.mem_ops_hwloc hop)
          (ModuleSource.mem_ops_superMUC hop')
      · exact RocmSource.commute_supermuc hop (ModuleSource.mem_ops_superMUC hop')
  exact hE.trans (hE.symm (hfixed hsources)) (hfixed hsources')

/-- The adapters of a vertex after the modules are those of `AdapterAt`. -/
theorem adapterAt_of_run (hsources : sources.Perm [.hwloc hw, .rocm rocm, .superMUC sm])
    {k : Key} {x : Vertex n}
    (hx : (Topology.run (sourcesOps 0 sources) (Keyed.empty : Topology n)).info k = some x) :
    ∀ a ∈ x.mAdapters, AdapterAt hw rocm k a := by
  refine Topology.adapters_run (fun k f hput v a ha => ?_) (fun k x hx => by cases hx) k x hx
  have hkinds : (sources.map ModuleSource.kind).Nodup :=
    (hsources.map ModuleSource.kind).nodup_iff.mpr (by simp [ModuleSource.kind])
  rw [sourcesOps_eq_flatten hkinds] at hput
  obtain ⟨ops, hops, hput⟩ := List.mem_flatten.mp hput
  obtain ⟨source, hsource, rfl⟩ := List.mem_map.mp hops
  have hmem := hsources.mem_iff.mp hsource
  simp only [List.mem_cons, List.not_mem_nil, or_false] at hmem
  rcases hmem with rfl | rfl | rfl
  · rcases HwlocSource.mem_ops (ModuleSource.mem_ops_hwloc hput) with hop | ⟨obj, i, hi, hop⟩ |
      ⟨b, c, hop, -⟩
    · cases hop
      have ha' : a ∈ v.mAdapters ++ [hw.api.hwlocAdapter n hw.root] := by
        simpa [HwlocSource.contributeRoot] using ha
      rcases List.mem_append.mp ha' with ha' | ha'
      · exact .inl ha'
      · rw [List.mem_singleton.mp ha']
        exact .inr .machine
    · cases hop
      have ha' : a ∈ v.mAdapters ++ [hw.api.hwlocAdapter n obj] := by
        simpa [HwlocApi.contribute] using ha
      rcases List.mem_append.mp ha' with ha' | ha'
      · exact .inl ha'
      · rw [List.mem_singleton.mp ha']
        exact .inr (.object hi)
    · cases hop
  · rcases RocmSource.mem_ops hput with ⟨b, device, index, hi, hb, hop⟩ | ⟨b, b', hop⟩
    · cases hop
      rcases List.mem_append.mp ha with ha | ha
      · exact .inl ha
      · rw [List.mem_singleton.mp ha]
        exact .inr (.device hi hb)
    · cases hop
  · have hadapter : ∀ (t : Component) (name : String), f = contributeSupermuc t name →
        a ∈ v.mAdapters ∨ AdapterAt hw rocm k a := by
      rintro t name rfl
      rcases List.mem_append.mp ha with ha | ha
      · exact .inl ha
      · rw [List.mem_singleton.mp ha]
        exact .inr (.system k name)
    rcases mem_supermucOps (ModuleSource.mem_ops_superMUC hput) with ⟨hostname, hop⟩ |
      ⟨name, hop⟩ | ⟨name, b, hop⟩
    · exact hadapter _ _ (TopologyOp.put.inj hop).2
    · exact hadapter _ _ (TopologyOp.put.inj hop).2
    · cases hop

end

/-- **The order of ModuleHwloc, ModuleRocm and ModuleSuperMUC does not matter**: the
graphs of any two orders are the same, up to the numbers of the vertices. -/
theorem initOrder_irrelevant (S : StdSort VertexT) {hw : HwlocSource}
    (hhwloc : hw.DistinctBdfids) {rocm : RocmSource} (hrocm : rocm.DistinctBdfids)
    (hnames : ∀ device ∈ rocm.devices, device.name ≠ "") (sm : SupermucSource)
    {sources sources' : List ModuleSource}
    (hsources : sources.Perm [.hwloc hw, .rocm rocm, .superMUC sm])
    (hsources' : sources'.Perm [.hwloc hw, .rocm rocm, .superMUC sm]) :
    ∃ (g g' : Graph n) (f : VertexT → VertexT), runSources S sources {} = .ok g ∧
      runSources S sources' {} = .ok g' ∧ g.Iso f g' := by
  have hfirst : ∀ {sources : List ModuleSource},
      sources.Perm [.hwloc hw, .rocm rocm, .superMUC sm] → ∀ m ∈ sources, m.IsFirst := by
    intro sources hperm m hm
    have hmem := hperm.mem_iff.mp hm
    simp only [List.mem_cons, List.not_mem_nil, or_false] at hmem
    rcases hmem with rfl | rfl | rfl <;> exact trivial
  obtain ⟨φ, g, hrun, hrep, -, -⟩ := runSources_represents S (hfirst hsources)
    (Represents.empty (n := n)) (s := 0) fun i _ => rfl
  obtain ⟨φ', g', hrun', hrep', -, -⟩ := runSources_represents S (hfirst hsources')
    (Represents.empty (n := n)) (s := 0) fun i _ => rfl
  obtain ⟨f, hbij, hkeys, hvertices, hedges⟩ := hrep.toNumbers.exists_iso hrep'.toNumbers
    (sourcesOps_alike hnames hsources hsources')
  have hsame : ∀ v < g.numVertices, SameVertex (g.vertex v) (g'.vertex (f v)) := by
    intro v hv
    obtain ⟨k, hk⟩ := hrep.surj v hv
    obtain ⟨x, hx, -⟩ := hrep.info_some hk
    obtain ⟨y, hy, hxy⟩ := hvertices v x hx
    rw [Graph.vertex, Graph.vertex, hx, hy]
    exact hxy
  refine ⟨g, g', f, hrun, hrun', hbij, fun id => ?_, hedges, fun v hv => (hsame v hv).type,
    fun v hv => (hsame v hv).description, fun v hv => (hsame v hv).adapters,
    fun v hv rt name => ?_⟩
  · rw [hrep.ids, hrep'.ids, hkeys]
  · obtain ⟨k, hk⟩ := hrep.surj v hv
    have hadapters := adapterAt_of_run hsources (hrep.info_vertex hk)
    exact GraphElement.get_perm (hsame v hv).adapters
      (fun a ha => (hadapters a ha).moduleMap_eq)
      (fun a ha a' ha' => (hadapters a ha).agree hhwloc hrocm (hadapters a' ha')) rt name

theorem initOrder_irrelevant_smallMachine :
    ∃ (g g' : Graph 2) (f : VertexT → VertexT),
      runSources .insertion [.hwloc smallMachine, .rocm linkedGpus, .superMUC smallSystem] {} =
        .ok g ∧
      runSources .insertion [.superMUC smallSystem, .hwloc smallMachine, .rocm linkedGpus] {} =
        .ok g' ∧ g.Iso f g' :=
  initOrder_irrelevant .insertion smallMachine_distinctBdfids
    ⟨[0x300, 0x400], by decide, rfl⟩ (by simp [linkedGpus]) smallSystem (List.Perm.refl _)
    ((List.Perm.swap _ _ _).trans ((List.Perm.swap _ _ _).cons _))

end Yloc
