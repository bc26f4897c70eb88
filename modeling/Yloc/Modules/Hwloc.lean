import Yloc.Status
import Yloc.Topology

/-!
`modules/hwloc`: the vertices and edges of the local machine.

hwloc itself is a parameter: `HwlocApi` has the functions that classify object
types, with what the documentation says of them, and `HwlocSource` what one
initialisation reads. The objects are a tree in first-child, next-sibling form,
as `hwloc_get_next_child` presents them.

* `HwlocApi.hwloc2YlocType`, `HwlocApi.bdfid`, `HwlocApi.hwlocAdapter`: the
  component type and the adapter of an object.
* `makeHwlocGraph`, `HwlocSource.initGraph`: the functions of `init_graph.cc`.
* `hwlocOps`: what the module does to the topology; `makeHwlocGraph_advance` and
  `HwlocSource.initGraph_represents` connect the two.
-/

namespace Yloc

/-- `hwloc_obj_type_t`. -/
inductive HwlocObjType where
  | machine | package | core | pu
  | l1cache | l2cache | l3cache | l4cache | l5cache
  | l1icache | l2icache | l3icache
  | group | numanode | bridge | pciDevice | osDevice | misc | memcache | die
  deriving DecidableEq, Repr

/-- `hwloc_obj_osdev_type_t`. -/
inductive HwlocObjOsdevType where
  | block | gpu | network | openfabrics | dma | coproc
  /-- A value that the switch of the source does not list. -/
  | other
  deriving DecidableEq, Repr

/-- `hwloc_pcidev_attr_s`: the address of a PCI device. -/
structure HwlocPcidevAttr where
  domain : UInt32 := 0
  bus : UInt8 := 0
  dev : UInt8 := 0
  func : UInt8 := 0
  deriving DecidableEq, Repr

/-- `hwloc_obj_attr_u`: the members that are read. -/
structure HwlocObjAttr where
  cacheSize : UInt64 := 0
  numanodeLocalMemory : UInt64 := 0
  pcidev : HwlocPcidevAttr := {}
  osdevType : HwlocObjOsdevType := .other
  deriving DecidableEq, Repr

/-- `hwloc_obj`, by its address, with `NULL` pointers as `none`. -/
structure HwlocObj where
  addr : ℕ
  type : HwlocObjType
  attr : Option HwlocObjAttr := none
  cpuset : Option HwlocBitmap := none
  deriving DecidableEq

/-- The attributes where they are read without a test, which hwloc sets for
objects of the types in question. -/
def HwlocObj.attrs (obj : HwlocObj) : HwlocObjAttr := obj.attr.getD {}

/-- The children of an object from one of them on: nothing, or an object with
its children and the children after it. -/
inductive HwlocChildren where
  | nil
  | cons (obj : HwlocObj) (children next : HwlocChildren)

/-- The objects in the order in which they are visited. -/
def HwlocChildren.objects : HwlocChildren → List HwlocObj
  | nil => []
  | cons obj children next => obj :: (children.objects ++ next.objects)

/-- The functions of hwloc that look at object types. -/
structure HwlocApi where
  /-- `hwloc_obj_type_string` -/
  typeString : HwlocObjType → String
  typeIsCache : HwlocObjType → Bool
  typeIsIcache : HwlocObjType → Bool
  typeIsDcache : HwlocObjType → Bool
  typeIsMemory : HwlocObjType → Bool
  compareTypes : HwlocObjType → HwlocObjType → ℤ
  /-- A type compares equal to itself only. -/
  compareTypes_eq_zero : ∀ a b, compareTypes a b = 0 ↔ a = b
  /-- Caches are instruction caches, data caches and unified ones. -/
  typeIsCache_eq : ∀ t, typeIsCache t = (typeIsDcache t || typeIsIcache t)
  /-- Machines and PCI devices are neither caches nor memory. -/
  not_cache_memory : ∀ t, t = .machine ∨ t = .pciDevice →
    typeIsIcache t = false ∧ typeIsDcache t = false ∧ typeIsMemory t = false

namespace HwlocApi

variable (api : HwlocApi)

/-- `!hwloc_compare_types(t, t')`. -/
def sameType (t t' : HwlocObjType) : Bool := api.compareTypes t t' == 0

/-- `hwloc_2_yloc_type`. For a type that it does not know, this is what is returned after
the `assert(false)`. -/
def hwloc2YlocType (obj : HwlocObj) : Component :=
  if api.typeIsIcache obj.type then
    if api.sameType obj.type .l1icache then .l1InstructionCache
    else if api.sameType obj.type .l2icache then .l2InstructionCache
    else if api.sameType obj.type .l3icache then .l3InstructionCache
    else .instructionCache
  else if api.typeIsDcache obj.type then
    if api.sameType obj.type .l1cache then .l1DataCache
    else if api.sameType obj.type .l2cache then .l2DataCache
    else if api.sameType obj.type .l3cache then .l3DataCache
    else if api.sameType obj.type .l4cache then .l4DataCache
    else .dataCache
  else if api.typeIsMemory obj.type then .memory
  else if api.sameType obj.type .osDevice && obj.attr.isSome then
    match obj.attrs.osdevType with
    | .gpu => .logicalGPU
    | .coproc => .logicalAccelerator
    | .dma | .network | .openfabrics | .block => .misc
    | .other => .unknownComponentType
  else if api.sameType obj.type .core then .physicalCore
  else if api.sameType obj.type .pu then .logicalCore
  else if api.sameType obj.type .machine then .node
  else if api.sameType obj.type .package then .misc
  else if api.sameType obj.type .numanode then .memory
  else if api.sameType obj.type .group then .misc
  else if api.sameType obj.type .misc then .misc
  else if api.sameType obj.type .memcache then .misc
  else if api.sameType obj.type .bridge then .bridge
  else if api.sameType obj.type .pciDevice then .pciDevice
  else if api.sameType obj.type .die then .misc
  else .unknownComponentType

/-- `HwlocAdapter::bdfid`. -/
def bdfid (obj : HwlocObj) : Option UInt64 :=
  if api.sameType obj.type .pciDevice then
    let pcidev := obj.attrs.pcidev
    some (((pcidev.domain.toUInt64 &&& 0xffffffff) <<< 32)
      ||| ((pcidev.bus.toUInt64 &&& 0xff) <<< 8)
      ||| ((pcidev.dev.toUInt64 &&& 0x1f) <<< 3)
      ||| (pcidev.func.toUInt64 &&& 0x7))
  else none

/-- `HwlocAdapter`. -/
def hwlocAdapter (n : ℕ) (obj : HwlocObj) : Adapter n where
  toString := api.typeString obj.type
  memory :=
    if api.typeIsCache obj.type then some obj.attrs.cacheSize
    else if api.typeIsMemory obj.type then some obj.attrs.numanodeLocalMemory
    else none
  bdfid := api.bdfid obj
  cpuAffinityMask := obj.cpuset.map AffinityMask.ofHwlocBitmap
  mObj := .hwlocObj obj.addr

variable {api}

lemma sameType_iff {t t' : HwlocObjType} : api.sameType t t' = true ↔ t = t' := by
  rw [sameType, beq_iff_eq, api.compareTypes_eq_zero]

/-- An object gets a type of PCI devices only where it compares equal to one. -/
lemma bdfid_isSome {obj : HwlocObj} (h : (api.hwloc2YlocType obj).isA .pciDevice = true) :
    (api.bdfid obj).isSome := by
  by_cases hpci : api.sameType obj.type .pciDevice = true
  · rw [bdfid, if_pos hpci]
    rfl
  · -- no other branch answers such a type
    let Other : Component → Prop := fun t => t.isA .pciDevice = false
    have hite : ∀ {c : Prop} [Decidable c] {s t : Component}, Other s → Other t →
        Other (if c then s else t) := by
      intro c _ s t hs ht
      split
      · exact hs
      · exact ht
    have hother : Other (api.hwloc2YlocType obj) := by
      rw [hwloc2YlocType, if_neg hpci]
      cases obj.attrs.osdevType <;> repeat' apply hite
      all_goals exact rfl
    rw [show (api.hwloc2YlocType obj).isA .pciDevice = false from hother] at h
    exact absurd h (by simp)

/-- A PCI device gets the type of PCI devices. -/
lemma hwloc2YlocType_pciDevice {obj : HwlocObj} (h : obj.type = .pciDevice) :
    api.hwloc2YlocType obj = .pciDevice := by
  obtain ⟨hicache, hdcache, hmemory⟩ := api.not_cache_memory .pciDevice (.inr rfl)
  simp [hwloc2YlocType, hicache, hdcache, hmemory, sameType_iff, h]

/-- What an object does to its vertex. -/
def contribute {n : ℕ} (api : HwlocApi) (obj : HwlocObj) (v : Vertex n) : Vertex n :=
  ((v.describeIfEmpty (api.hwlocAdapter n obj).toString).addAdapter
    (api.hwlocAdapter n obj)).setTypeIfUnknown (api.hwloc2YlocType obj)

/-- An object gives a type to a vertex that has none. -/
lemma contribute_mType {n : ℕ} (api : HwlocApi) (obj : HwlocObj) (v : Vertex n) :
    (api.contribute obj v).mType =
      if v.mType = .unknownComponentType then api.hwloc2YlocType obj else v.mType := by
  have htype : ((v.describeIfEmpty (api.hwlocAdapter n obj).toString).addAdapter
      (api.hwlocAdapter n obj)).mType = v.mType := by
    rw [GraphElement.describeIfEmpty]
    split <;> rfl
  rw [contribute, GraphElement.setTypeIfUnknown, htype]
  split
  · rfl
  · exact htype

/-- The place of a type among the types that include one another. -/
def typeOrder : HwlocObjType → ℤ
  | .machine => 0 | .group => 1 | .memcache => 2 | .numanode => 3 | .package => 4 | .die => 5
  | .l5cache => 6 | .l4cache => 7 | .l3cache => 8 | .l3icache => 9 | .l2cache => 10
  | .l2icache => 11 | .l1cache => 12 | .l1icache => 13 | .core => 14 | .bridge => 15
  | .pciDevice => 16 | .osDevice => 17 | .pu => 18 | .misc => 19

/-- The functions as they behave on the types that hwloc documents. -/
def standard : HwlocApi where
  typeString
    | .machine => "Machine" | .package => "Package" | .core => "Core" | .pu => "PU"
    | .l1cache => "L1Cache" | .l2cache => "L2Cache" | .l3cache => "L3Cache"
    | .l4cache => "L4Cache" | .l5cache => "L5Cache" | .l1icache => "L1iCache"
    | .l2icache => "L2iCache" | .l3icache => "L3iCache" | .group => "Group"
    | .numanode => "NUMANode" | .bridge => "Bridge" | .pciDevice => "PCIDev"
    | .osDevice => "OSDev" | .misc => "Misc" | .memcache => "MemCache" | .die => "Die"
  typeIsCache t := t ∈ [.l1cache, .l2cache, .l3cache, .l4cache, .l5cache, .l1icache, .l2icache,
    .l3icache]
  typeIsIcache t := t ∈ [.l1icache, .l2icache, .l3icache]
  typeIsDcache t := t ∈ [.l1cache, .l2cache, .l3cache, .l4cache, .l5cache]
  typeIsMemory t := t ∈ [.numanode, .memcache]
  compareTypes a b := typeOrder a - typeOrder b
  compareTypes_eq_zero a b := by cases a <;> cases b <;> decide
  typeIsCache_eq t := by cases t <;> decide
  not_cache_memory t h := by rcases h with rfl | rfl <;> decide

end HwlocApi

variable {n : ℕ}

/-- `make_hwloc_graph`. The value of the bdfid is there by `bdfid_isSome`. -/
def makeHwlocGraph (api : HwlocApi) : Graph n → VertexT → HwlocChildren → Graph n
  | g, _, .nil => g
  | g, vd, .cons child children next =>
      let (childVd, g) :=
        if h : (api.hwloc2YlocType child).isA .pciDevice = true then
          g.addVertexId (bdfidId ((api.bdfid child).get (HwlocApi.bdfid_isSome h)))
        else g.addVertex
      let g := g.modify childVd (api.contribute child)
      let g := g.addEdge vd childVd .child
      let g := g.addEdge childVd vd .parent
      let g := makeHwlocGraph api g childVd children
      makeHwlocGraph api g vd next

/-- What one initialisation of hwloc reads. -/
structure HwlocSource where
  api : HwlocApi
  /-- `HWLOC_API_VERSION` -/
  compiledVersion : UInt32
  /-- `hwloc_get_api_version()` -/
  libraryVersion : UInt32
  /-- `hwloc_topology_init` and `hwloc_topology_load` return these codes. -/
  topologyInit : ℤ
  topologyLoad : ℤ
  /-- `hwloc_get_root_obj` and what is below it. -/
  root : HwlocObj
  root_type : root.type = .machine
  children : HwlocChildren
  /-- `gethostname` -/
  hostname : String

namespace HwlocSource

/-- `check_hwloc_api_version`. -/
def checkHwlocApiVersion (source : HwlocSource) : YlocStatus :=
  if source.libraryVersion >>> 16 != source.compiledVersion >>> 16 then .initError else .success

/-- What the root object does to its vertex. -/
def contributeRoot (source : HwlocSource) (v : Vertex n) : Vertex n :=
  ((v.describe source.hostname).addAdapter
    (source.api.hwlocAdapter n source.root)).setTypeIfUnknown
      (source.api.hwloc2YlocType source.root)

/-- `ModuleHwloc::init_graph`. The codes of `hwloc_topology_init` and
`hwloc_topology_load` are not looked at. -/
def initGraph (source : HwlocSource) (g : Graph n) : YlocStatus × Graph n :=
  if source.checkHwlocApiVersion ≠ .success then (source.checkHwlocApiVersion, g)
  else
    let (rootVd, g) := g.addVertexId (machineId source.hostname)
    let g := g.setRootVertex rootVd
    let g := g.modify rootVd source.contributeRoot
    (.success, makeHwlocGraph source.api g rootVd source.children)

end HwlocSource

/-! ### What the module does to the topology -/

namespace HwlocApi

variable (api : HwlocApi)

/-- What the vertex of an object is known by, `i` being the position of the object. -/
def hwlocKey (i : ℕ) (obj : HwlocObj) : Key :=
  if h : (api.hwloc2YlocType obj).isA .pciDevice = true then
    bdfidKey ((api.bdfid obj).get (bdfid_isSome h))
  else .unnamed i

/-- The operations of `make_hwloc_graph` below the vertex of `k`, with the
objects numbered from `s` on. -/
def hwlocOps {n : ℕ} : ℕ → Key → HwlocChildren → List (TopologyOp n)
  | _, _, .nil => []
  | s, k, .cons obj children next =>
      .put (api.hwlocKey s obj) (api.contribute obj) :: .child k (api.hwlocKey s obj) ::
        (hwlocOps (s + 1) (api.hwlocKey s obj) children ++
          hwlocOps (s + 1 + children.objects.length) k next)

/-- The keys of the objects, in the order in which they are visited. -/
def hwlocKeys (s : ℕ) (children : HwlocChildren) : List Key :=
  (children.objects.zipIdx s).map fun p => api.hwlocKey p.2 p.1

end HwlocApi

/-- The operations of `ModuleHwloc::init_graph`. -/
def HwlocSource.ops (source : HwlocSource) (s : ℕ) : List (TopologyOp n) :=
  .put (machineKey source.hostname) source.contributeRoot ::
    source.api.hwlocOps s (machineKey source.hostname) source.children

/-- No unnamed vertex is known by a number from `s` on. -/
def Topology.FreshFrom (T : Topology n) (s : ℕ) : Prop := ∀ i, s ≤ i → T.info (.unnamed i) = none

section

variable {api : HwlocApi}

lemma HwlocApi.hwlocKeys_cons (s : ℕ) (obj : HwlocObj) (children next : HwlocChildren) :
    api.hwlocKeys s (.cons obj children next) = api.hwlocKey s obj ::
      (api.hwlocKeys (s + 1) children ++
        api.hwlocKeys (s + 1 + children.objects.length) next) := by
  simp [hwlocKeys, HwlocChildren.objects, List.zipIdx_append]

/-- Something is put on the key of every object. -/
lemma HwlocApi.hwlocOps_putKey (s : ℕ) (k : Key) (children : HwlocChildren) :
    (api.hwlocOps s k children : List (TopologyOp n)).filterMap TopologyOp.putKey =
      api.hwlocKeys s children := by
  induction children generalizing s k with
  | nil => rfl
  | cons obj children next ihc ihn =>
      rw [hwlocOps, hwlocKeys_cons]
      simp only [List.filterMap_cons, TopologyOp.putKey, List.filterMap_append, ihc, ihn]

/-- Every object is put on its key. -/
lemma HwlocApi.put_mem_hwlocOps (api : HwlocApi) {children : HwlocChildren} {i : ℕ}
    {obj : HwlocObj} (h : children.objects[i]? = some obj) (s : ℕ) (k : Key) :
    .put (api.hwlocKey (s + i) obj) (api.contribute obj) ∈
      (api.hwlocOps s k children : List (TopologyOp n)) := by
  induction children generalizing s k i with
  | nil => cases h
  | cons child children next ihc ihn =>
      rw [HwlocApi.hwlocOps]
      cases i with
      | zero =>
          obtain rfl := Option.some.inj h
          exact List.mem_cons_self
      | succ i =>
          refine List.mem_cons_of_mem _ (List.mem_cons_of_mem _ (List.mem_append.mpr ?_))
          rw [HwlocChildren.objects, List.getElem?_cons_succ] at h
          by_cases hi : i < children.objects.length
          · left
            rw [List.getElem?_append_left hi] at h
            rw [show s + (i + 1) = s + 1 + i by omega]
            exact ihc h (s + 1) _
          · right
            rw [List.getElem?_append_right (not_lt.mp hi)] at h
            have hplace : s + (i + 1) =
                s + 1 + children.objects.length + (i - children.objects.length) := by omega
            rw [hplace]
            exact ihn h _ k

/-- The unnamed keys of the objects are numbers from `s` on. -/
lemma HwlocApi.mem_hwlocKeys_unnamed {s i : ℕ} {children : HwlocChildren}
    (h : .unnamed i ∈ api.hwlocKeys s children) :
    s ≤ i ∧ i < s + children.objects.length := by
  obtain ⟨⟨obj, j⟩, hmem, hkey⟩ := List.mem_map.mp h
  have hj := List.mem_zipIdx hmem
  rw [HwlocApi.hwlocKey] at hkey
  split at hkey
  · cases hkey
  · cases hkey
    omega

variable {φ : Key → Option VertexT} {g : Graph n} {T : Topology n}

/-- The operations use up the numbers of the objects. -/
lemma Topology.FreshFrom.hwlocOps {s : ℕ} (h : T.FreshFrom s) (api : HwlocApi) (k : Key)
    (children : HwlocChildren) :
    (T.run (api.hwlocOps s k children)).FreshFrom (s + children.objects.length) := by
  intro i hi
  rw [← Option.not_isSome_iff_eq_none, Topology.run_info_isSome, HwlocApi.hwlocOps_putKey]
  rintro (hsome | hmem)
  · rw [h i (by omega)] at hsome
    exact absurd hsome (by simp)
  · have := HwlocApi.mem_hwlocKeys_unnamed hmem
    omega

/-- The vertex of one object. -/
lemma Represents.addHwlocVertex (h : Represents φ g T) {s : ℕ} (hs : T.FreshFrom s)
    (api : HwlocApi) (obj : HwlocObj) :
    ∃ φ' vd g', (if h : (api.hwloc2YlocType obj).isA .pciDevice = true then
          g.addVertexId (bdfidId ((api.bdfid obj).get (HwlocApi.bdfid_isSome h)))
        else g.addVertex) = (vd, g') ∧ φ' (api.hwlocKey s obj) = some vd ∧
      Advance φ g φ' g' (Keyed.touch (api.hwlocKey s obj) {} T) := by
  by_cases hpci : (api.hwloc2YlocType obj).isA .pciDevice = true
  · rw [HwlocApi.hwlocKey, dif_pos hpci, dif_pos hpci]
    exact h.addVertexId _
  · rw [HwlocApi.hwlocKey, dif_neg hpci, dif_neg hpci]
    obtain ⟨φ', hvd, hadv⟩ := h.addVertex (hs s le_rfl)
    exact ⟨φ', _, _, rfl, hvd, hadv⟩

/-- **`make_hwloc_graph` makes the changes of `hwlocOps`.** -/
theorem makeHwlocGraph_advance (api : HwlocApi) (children : HwlocChildren)
    (h : Represents φ g T) {s : ℕ}
    (hs : T.FreshFrom s) {k : Key} {vd : VertexT} (hk : φ k = some vd) :
    ∃ φ', Advance φ g φ' (makeHwlocGraph api g vd children)
      (T.run (api.hwlocOps s k children)) := by
  induction children generalizing φ g T s k vd with
  | nil => exact ⟨φ, .refl h⟩
  | cons obj children next ihc ihn =>
      obtain ⟨φ₁, childVd, g₁, hvertex, hchild, hadv₁⟩ := h.addHwlocVertex hs api obj
      have hrep := (hadv₁.rep.modify hchild (api.contribute obj))
      have hedges := hrep.child (hadv₁.keeps k vd hk) hchild
      have hs₁ : (T.run [.put (api.hwlocKey s obj) (api.contribute obj),
          .child k (api.hwlocKey s obj)]).FreshFrom (s + 1) := by
        simpa [HwlocApi.hwlocOps, HwlocChildren.objects] using
          hs.hwlocOps api k (.cons obj .nil .nil)
      obtain ⟨φ₂, hadv₂⟩ := ihc hedges.rep hs₁ hchild
      have hs₂ := hs₁.hwlocOps api (api.hwlocKey s obj) children
      obtain ⟨φ₃, hadv₃⟩ := ihn hadv₂.rep hs₂
        (hadv₂.keeps k vd (hadv₁.keeps k vd hk))
      refine ⟨φ₃, ?_⟩
      have hops : T.run (api.hwlocOps s k (.cons obj children next)) =
          Topology.run (api.hwlocOps (s + 1 + children.objects.length) k next)
            (Topology.run (api.hwlocOps (s + 1) (api.hwlocKey s obj) children)
              (T.run [.put (api.hwlocKey s obj) (api.contribute obj),
                .child k (api.hwlocKey s obj)])) := by
        rw [HwlocApi.hwlocOps]
        simp [Topology.run]
      rw [hops, makeHwlocGraph, hvertex]
      exact ⟨hadv₃.rep, hadv₁.keeps.trans (hadv₂.keeps.trans hadv₃.keeps),
        hadv₃.root.trans (hadv₂.root.trans hadv₁.root)⟩

end

/-- **`ModuleHwloc::init_graph` makes the changes of its operations** and makes
the vertex of the local machine the root vertex, once the version is accepted. -/
theorem HwlocSource.initGraph_represents {source : HwlocSource} {φ : Key → Option VertexT}
    {g : Graph n} {T : Topology n} (h : Represents φ g T) {s : ℕ} (hs : T.FreshFrom s)
    (hversion : source.checkHwlocApiVersion = .success) :
    ∃ φ' g', source.initGraph g = (.success, g') ∧ Represents φ' g' (T.run (source.ops s)) ∧
      Extends φ φ' ∧ φ' (machineKey source.hostname) = some g'.mRootVertex := by
  obtain ⟨φ₁, rootVd, g₁, hvertex, hroot, hadv₁⟩ := h.addVertexId (machineId source.hostname)
  have hset : Represents φ₁ (g₁.setRootVertex rootVd) _ := ⟨hadv₁.rep.toNumbers, hadv₁.rep.ids⟩
  have hrep := hset.modify hroot source.contributeRoot
  have hs₁ : (T.run [.put (machineKey source.hostname)
      source.contributeRoot]).FreshFrom s := by
    intro i hi
    have hne : Key.unnamed i ≠ machineKey source.hostname := by simp
    exact (TopologyOp.put_info_of_ne hne _ _).trans (hs i hi)
  obtain ⟨φ₂, hadv₂⟩ := makeHwlocGraph_advance source.api source.children hrep hs₁ hroot
  refine ⟨φ₂, _, ?_, hadv₂.rep, hadv₁.keeps.trans hadv₂.keeps, ?_⟩
  · rw [HwlocSource.initGraph, if_neg (by simpa using hversion), hvertex]
  · rw [hadv₂.root]
    exact hadv₂.keeps _ _ hroot

end Yloc
