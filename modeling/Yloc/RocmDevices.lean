import Yloc.GpuInterconnects
import Yloc.ModuleOps

/-!
Devices of ROCm whose queries fail.

`ModuleRocm::init_graph` keeps the id of the device in a variable outside the loop and
only reports a query that fails, so the device goes to the vertex of the one before it.
`rocmDevices_separate_iff` says that every device goes to a vertex of its own exactly when
no such query fails, apart from that for the first device where the variable happens to
hold its id.

* `rocmBdfids_iff`: when the variable holds the id of every device in its round.
* `RocmSource.deviceLoop_spec`: what the loop does, given the values of the variable.
-/

namespace Yloc

variable {n : ℕ}

/-- Lists that are related element by element. -/
lemma forall₂_getElem? {α β : Type} {R : α → β → Prop} {l : List α} {l' : List β}
    (h : List.Forall₂ R l l') {i : ℕ} {b : β} (hb : l'[i]? = some b) :
    ∃ a, l[i]? = some a ∧ R a b := by
  obtain ⟨hi, rfl⟩ := List.getElem?_eq_some_iff.mp hb
  have hi' : i < l.length := by rwa [h.length_eq]
  exact ⟨l[i], List.getElem?_eq_getElem hi', h.get hi' hi⟩

/-! ### The values of the variable -/

section

variable {devices : List RocmDevice} {device : RocmDevice} {i : ℕ}

@[simp] lemma rocmBdfids_length (bdfid : UInt64) (devices : List RocmDevice) :
    (rocmBdfids bdfid devices).length = devices.length := by
  induction devices generalizing bdfid with
  | nil => rfl
  | cons device devices ih => rw [rocmBdfids, List.length_cons, ih, List.length_cons]

/-- A query that succeeds sets the variable. -/
lemma rocmBdfids_of_some {b : UInt64} (bdfid : UInt64) (hdevice : devices[i]? = some device)
    (hquery : device.pciId = some b) : (rocmBdfids bdfid devices)[i]? = some b := by
  induction devices generalizing bdfid i with
  | nil => cases hdevice
  | cons device' devices ih =>
      cases i with
      | zero =>
          obtain rfl := Option.some.inj hdevice
          rw [rocmBdfids, hquery]
          rfl
      | succ i => exact ih _ hdevice

/-- The first query leaves what the variable held before, if it fails. -/
lemma rocmBdfids_zero_of_none (bdfid : UInt64) (hdevice : devices[0]? = some device)
    (hquery : device.pciId = none) : (rocmBdfids bdfid devices)[0]? = some bdfid := by
  cases devices with
  | nil => cases hdevice
  | cons device' devices =>
      obtain rfl := Option.some.inj hdevice
      rw [rocmBdfids, hquery]
      rfl

/-- A later query leaves the id of the device before it, if it fails. -/
lemma rocmBdfids_succ_of_none (bdfid : UInt64) (hdevice : devices[i + 1]? = some device)
    (hquery : device.pciId = none) :
    (rocmBdfids bdfid devices)[i + 1]? = (rocmBdfids bdfid devices)[i]? := by
  induction devices generalizing bdfid i with
  | nil => cases hdevice
  | cons device' devices ih =>
      rw [rocmBdfids, List.getElem?_cons_succ]
      cases i with
      | zero => exact rocmBdfids_zero_of_none _ hdevice hquery
      | succ i => exact ih _ hdevice

/-- **When the variable holds the id of every device**: only the first query fails, and
the id is there already. -/
theorem rocmBdfids_iff {bdfidOf : ℕ → UInt64}
    (hdistinct : Set.InjOn bdfidOf (Set.Iio devices.length))
    (hqueries : ∀ i device b, devices[i]? = some device → device.pciId = some b → b = bdfidOf i)
    (bdfid : UInt64) :
    (∀ i < devices.length, (rocmBdfids bdfid devices)[i]? = some (bdfidOf i)) ↔
      ∀ i device, devices[i]? = some device → device.pciId = none →
        i = 0 ∧ bdfid = bdfidOf 0 := by
  constructor
  · intro h i device hdevice hquery
    have hi := (List.getElem?_eq_some_iff.mp hdevice).1
    cases i with
    | zero =>
        have hheld := rocmBdfids_zero_of_none bdfid hdevice hquery
        exact ⟨rfl, Option.some.inj (hheld.symm.trans (h 0 hi))⟩
    | succ i =>
        -- the variable would hold the ids of two devices
        have hheld := rocmBdfids_succ_of_none bdfid hdevice hquery
        rw [h _ hi, h i (Nat.lt_of_succ_lt hi)] at hheld
        have heq := hdistinct hi (Nat.lt_of_succ_lt hi) (Option.some.inj hheld)
        omega
  · intro h i hi
    obtain ⟨device, hdevice⟩ : ∃ device, devices[i]? = some device :=
      ⟨_, List.getElem?_eq_getElem hi⟩
    cases hquery : device.pciId with
    | some b =>
        rw [rocmBdfids_of_some bdfid hdevice hquery, hqueries i device b hdevice hquery]
    | none =>
        obtain ⟨rfl, hheld⟩ := h i device hdevice hquery
        rw [rocmBdfids_zero_of_none bdfid hdevice hquery, hheld]

end

/-! ### What the loop does -/

/-- The adapters of the devices in whose rounds the variable holds `b`. -/
def rocmAttached (n : ℕ) (bdfid : UInt64) (devices : List (RocmDevice × ℕ)) (b : UInt64) :
    List (Adapter n) :=
  ((devices.zip (rocmBdfids bdfid (devices.map Prod.fst))).filter fun p => p.2 == b).map
    fun p => rocmAdapter n p.1.1 p.1.2

lemma rocmAttached_cons (bdfid : UInt64) (device : RocmDevice × ℕ)
    (devices : List (RocmDevice × ℕ)) (b : UInt64) :
    rocmAttached n bdfid (device :: devices) b =
      (if device.1.pciId.getD bdfid = b then [rocmAdapter n device.1 device.2] else []) ++
        rocmAttached n (device.1.pciId.getD bdfid) devices b := by
  rw [rocmAttached, List.map_cons, rocmBdfids, List.zip_cons_cons, List.filter_cons]
  by_cases hb : device.1.pciId.getD bdfid = b
  · rw [if_pos (by simpa using hb), if_pos hb]
    rfl
  · rw [if_neg (by simpa using hb), if_neg hb]
    rfl

/-- The loop puts the adapters of these devices on a vertex. -/
lemma run_rocmPuts_mAdapters (devices : List (RocmDevice × ℕ)) (T : Topology n)
    (bdfid b : UInt64) :
    (((T.run (rocmPuts bdfid devices)).info (bdfidKey b)).getD {}).mAdapters =
      ((T.info (bdfidKey b)).getD {}).mAdapters ++ rocmAttached n bdfid devices b := by
  induction devices generalizing T bdfid with
  | nil => simp [rocmPuts, rocmAttached]
  | cons device devices ih =>
      rw [rocmPuts, Topology.run, runOps_cons, ih, rocmAttached_cons, ← List.append_assoc]
      by_cases hb : device.1.pciId.getD bdfid = b
      · subst hb
        rw [TopologyOp.put_info_self, if_pos rfl]
        rfl
      · have hne : bdfidKey b ≠ bdfidKey (device.1.pciId.getD bdfid) := by
          intro heq
          exact hb (bdfidId_inj.mp (Key.name.inj heq)).symm
        rw [if_neg hb, TopologyOp.put_info_of_ne hne, List.append_nil]

/-- Which adapters these are. -/
lemma mem_rocmAttached {bdfid b : UInt64} {devices : List RocmDevice} {a : Adapter n} :
    a ∈ rocmAttached n bdfid devices.zipIdx b ↔ ∃ i device, devices[i]? = some device ∧
      (rocmBdfids bdfid devices)[i]? = some b ∧ a = rocmAdapter n device i := by
  rw [rocmAttached, List.zipIdx_map_fst, List.mem_map]
  constructor
  · rintro ⟨⟨⟨device, i⟩, b'⟩, hmem, rfl⟩
    obtain ⟨hzip, hb⟩ := List.mem_filter.mp hmem
    obtain ⟨j, hj⟩ := List.mem_iff_getElem?.mp hzip
    obtain ⟨hdevice, hb'⟩ := List.getElem?_zip_eq_some.mp hj
    rw [List.getElem?_zipIdx, Nat.zero_add] at hdevice
    obtain ⟨device', hdevice', heq⟩ := Option.map_eq_some_iff.mp hdevice
    cases heq
    rw [beq_iff_eq] at hb
    subst hb
    exact ⟨_, device, hdevice', hb', rfl⟩
  · rintro ⟨i, device, hdevice, hb, rfl⟩
    refine ⟨((device, i), b), List.mem_filter.mpr ⟨?_, by simp⟩, rfl⟩
    refine List.mem_iff_getElem?.mpr ⟨i, List.getElem?_zip_eq_some.mpr ⟨?_, hb⟩⟩
    rw [List.getElem?_zipIdx, hdevice, Option.map_some, Nat.zero_add]

/-- Adapters of devices are told apart by their indices. -/
lemma rocmAdapter_index {device device' : RocmDevice} {i j : ℕ}
    (h : rocmAdapter n device i = rocmAdapter n device' j) : i = j :=
  NativeObj.rocmDevice.inj (congrArg Adapter.mObj h)

namespace RocmSource

/-- The loop of `ModuleRocm::init_graph` over the devices. -/
def deviceLoop (source : RocmSource) (g : Graph n) : Graph n × List VertexT × UInt64 :=
  source.devices.zipIdx.foldl addRocmDevice (g, [], source.bdfid)

/-- The module runs the loop and links the devices. -/
lemma initGraph_eq (source : RocmSource) (g : Graph n) :
    source.initGraph g =
      (.success, (source.gpuInterconnect (source.deviceLoop g).1 (source.deviceLoop g).2.1).2) :=
  rfl

/-- **What the loop does**: a device goes to the vertex of what the variable holds in its
round. -/
theorem deviceLoop_spec (source : RocmSource) {g : Graph n} (hg : g.WellFormed) :
    (source.deviceLoop g).1.WellFormed ∧
    List.Forall₂ (fun v b => (source.deviceLoop g).1.lookup (bdfidId b) = some v)
      (source.deviceLoop g).2.1 (rocmBdfids source.bdfid source.devices) ∧
    ∀ v a, a ∈ ((source.deviceLoop g).1.vertex v).mAdapters.drop (g.vertex v).mAdapters.length ↔
      ∃ i device b, source.devices[i]? = some device ∧
        (rocmBdfids source.bdfid source.devices)[i]? = some b ∧ a = rocmAdapter n device i ∧
          (source.deviceLoop g).1.lookup (bdfidId b) = some v := by
  obtain ⟨φ, T, hrep, -⟩ := exists_represents hg
  obtain ⟨φ', g', vertices, bdfid, hrun, hadv, hkeys⟩ :=
    addRocmDevices_advance source.devices.zipIdx hrep .nil source.bdfid
  rw [List.nil_append, List.zipIdx_map_fst, List.forall₂_map_right_iff] at hkeys
  rw [show source.deviceLoop g = (g', vertices, bdfid) from hrun]
  refine ⟨hadv.rep.wellFormed, hkeys.imp fun v b hb => by rw [hadv.rep.ids, hb], fun v a => ?_⟩
  have hids : ∀ b, g'.lookup (bdfidId b) = φ' (bdfidKey b) := fun b => hadv.rep.ids _
  simp only [hids]
  by_cases hv : ∃ b, φ' (bdfidKey b) = some v
  · obtain ⟨b, hb⟩ := hv
    have hnew : (g'.vertex v).mAdapters = (g.vertex v).mAdapters ++
        rocmAttached n source.bdfid source.devices.zipIdx b := by
      rw [← hrep.getD_info hadv.rep hadv.keeps hb, ← run_rocmPuts_mAdapters,
        hadv.rep.info_vertex hb, Option.getD_some]
    rw [hnew, List.drop_left, mem_rocmAttached]
    constructor
    · rintro ⟨i, device, hdevice, hheld, rfl⟩
      exact ⟨i, device, b, hdevice, hheld, rfl, hb⟩
    · rintro ⟨i, device, b', hdevice, hheld, rfl, hb'⟩
      have hkey := hadv.rep.inj _ _ v hb' hb
      rw [Key.name.injEq, bdfidId_inj] at hkey
      exact ⟨i, device, hdevice, hkey ▸ hheld, rfl⟩
  · -- the loop changes the vertices of bdfids only
    have hsame : g'.vertex v = g.vertex v := by
      refine hrep.vertex_run_of_ne hadv.rep hadv.keeps fun k hput hk => ?_
      obtain ⟨op, hop, hkey⟩ := List.mem_filterMap.mp hput
      obtain ⟨b, device, index, -, -, rfl⟩ := mem_rocmPuts hop
      cases hkey
      exact hv ⟨b, hk⟩
    rw [hsame, List.drop_length]
    constructor
    · intro ha
      cases ha
    · rintro ⟨i, device, b, -, -, -, hb⟩
      exact absurd ⟨b, hb⟩ hv

/-- The devices of the loop on the graph `g` are apart, `bdfidOf` being their ids. -/
structure Separate (source : RocmSource) (bdfidOf : ℕ → UInt64) (g : Graph n) : Prop where
  /-- The adapter of a device is attached to the vertex of its id, or to none. -/
  attached : ∀ i device v, source.devices[i]? = some device →
    rocmAdapter n device i ∈
      ((source.deviceLoop g).1.vertex v).mAdapters.drop (g.vertex v).mAdapters.length →
    (source.deviceLoop g).1.lookup (bdfidId (bdfidOf i)) = some v
  /-- There is a vertex of the graph for each device, and they are different. -/
  vertices_length : (source.deviceLoop g).2.1.length = source.devices.length
  vertices_lt : ∀ v ∈ (source.deviceLoop g).2.1, v < (source.deviceLoop g).1.numVertices
  vertices_nodup : (source.deviceLoop g).2.1.Nodup
  /-- The pass that follows joins no vertex to itself. -/
  noLoop : ∀ e ∈ (source.gpuInterconnect (source.deviceLoop g).1
    (source.deviceLoop g).2.1).2.edges.drop (source.deviceLoop g).1.edges.length,
      e.source ≠ e.target

section

variable {source : RocmSource} {bdfidOf : ℕ → UInt64} {g : Graph n} (hg : g.WellFormed)
  (hheld : ∀ i < source.devices.length,
    (rocmBdfids source.bdfid source.devices)[i]? = some (bdfidOf i))

include hg hheld

/-- If the variable holds the id of every device, the vertices are those of the ids. -/
lemma vertex_of_held {i : ℕ} {v : VertexT} (hv : (source.deviceLoop g).2.1[i]? = some v) :
    i < source.devices.length ∧
      (source.deviceLoop g).1.lookup (bdfidId (bdfidOf i)) = some v := by
  obtain ⟨-, hvertices, -⟩ := source.deviceLoop_spec hg
  have hi : i < source.devices.length := by
    rw [← rocmBdfids_length source.bdfid source.devices, ← hvertices.length_eq]
    exact (List.getElem?_eq_some_iff.mp hv).1
  obtain ⟨v', hv', hlookup⟩ := forall₂_getElem? hvertices (hheld i hi)
  obtain rfl := Option.some.inj (hv.symm.trans hv')
  exact ⟨hi, hlookup⟩

/-- They are different, then. -/
lemma vertices_nodup_of_held (hdistinct : Set.InjOn bdfidOf (Set.Iio source.devices.length)) :
    (source.deviceLoop g).2.1.Nodup := by
  obtain ⟨hwell, -, -⟩ := source.deviceLoop_spec hg
  refine List.nodup_iff_getElem?_ne_getElem?.mpr fun i j hij hj heq => ?_
  obtain ⟨v, hv⟩ : ∃ v, (source.deviceLoop g).2.1[j]? = some v := ⟨_, List.getElem?_eq_getElem hj⟩
  obtain ⟨hj', hlookup'⟩ := vertex_of_held hg hheld hv
  obtain ⟨hi', hlookup⟩ := vertex_of_held hg hheld (heq.trans hv)
  have hid := bdfidId_inj.mp (hwell.inj _ _ v hlookup hlookup')
  exact hij.ne (hdistinct hi' hj' hid)

end

/-- **When the devices are kept apart**: every query for an id succeeds, apart from that
for the first device where the variable holds its id already. -/
theorem separate_iff {source : RocmSource} {bdfidOf : ℕ → UInt64}
    (hdistinct : Set.InjOn bdfidOf (Set.Iio source.devices.length))
    (hqueries : ∀ i device b, source.devices[i]? = some device → device.pciId = some b →
      b = bdfidOf i) {g : Graph n} (hg : g.WellFormed) :
    source.Separate bdfidOf g ↔
      ∀ i device, source.devices[i]? = some device → device.pciId = none →
        i = 0 ∧ source.bdfid = bdfidOf 0 := by
  obtain ⟨hwell, hvertices, hattached⟩ := source.deviceLoop_spec hg
  rw [← rocmBdfids_iff hdistinct hqueries]
  constructor
  · intro h i hi
    obtain ⟨b, hb⟩ : ∃ b, (rocmBdfids source.bdfid source.devices)[i]? = some b :=
      ⟨_, List.getElem?_eq_getElem (by rwa [rocmBdfids_length])⟩
    obtain ⟨device, hdevice⟩ : ∃ device, source.devices[i]? = some device :=
      ⟨_, List.getElem?_eq_getElem hi⟩
    -- the device is attached to the vertex of `b`
    obtain ⟨v, hv, hlookup⟩ := forall₂_getElem? hvertices hb
    have hid := h.attached i device v hdevice
      ((hattached v _).mpr ⟨i, device, b, hdevice, hb, rfl, hlookup⟩)
    rw [hb, bdfidId_inj.mp (hwell.inj _ _ v hlookup hid)]
  · intro h
    have hnodup := vertices_nodup_of_held hg h hdistinct
    refine ⟨fun i device v hdevice hmem => ?_, hvertices.length_eq.trans (rocmBdfids_length _ _),
      fun v hv => ?_, hnodup, (gpuInterconnect_linksDevices hnodup _ _).noLoop⟩
    · obtain ⟨i', device', b, hdevice', hb, heq, hlookup⟩ := (hattached v _).mp hmem
      obtain rfl := rocmAdapter_index heq
      rw [h i (List.getElem?_eq_some_iff.mp hdevice).1] at hb
      rwa [Option.some.inj hb]
    · obtain ⟨i, hi⟩ := List.mem_iff_getElem?.mp hv
      exact hwell.bound _ v (vertex_of_held hg h hi).2

/-- Two devices that are one hop apart; `query` is whether that for the id of the second
one succeeds. -/
def twoDevices (query : Bool) : RocmSource where
  rsmiInit := true
  bdfid := 0
  devices := [{ name := "MI250", pciId := some 0x300 },
    { name := "MI250", pciId := if query then some 0x400 else none }]
  hops _ _ := 1

/-- The ids of the two devices. -/
def twoBdfids (i : ℕ) : UInt64 := if i = 0 then 0x300 else 0x400

/-- If both queries succeed, the devices are kept apart. -/
theorem separate_iff_twoDevices : (twoDevices true).Separate twoBdfids ({} : Graph 1) := by
  refine (separate_iff ?_ ?_ Represents.empty.wellFormed).mpr ?_
  · intro i hi j hj heq
    have hi' : i < 2 := hi
    have hj' : j < 2 := hj
    rw [twoBdfids, twoBdfids] at heq
    split at heq <;> split at heq
    · omega
    · exact absurd heq (by decide)
    · exact absurd heq (by decide)
    · omega
  · intro i device b hdevice hquery
    match i, hdevice with
    | 0, hdevice =>
        obtain rfl := Option.some.inj hdevice
        exact (Option.some.inj hquery).symm
    | 1, hdevice =>
        obtain rfl := Option.some.inj hdevice
        exact (Option.some.inj hquery).symm
  · intro i device hdevice hquery
    match i, hdevice with
    | 0, hdevice =>
        obtain rfl := Option.some.inj hdevice
        cases hquery
    | 1, hdevice =>
        obtain rfl := Option.some.inj hdevice
        cases hquery

/-- If the second query fails, the second device goes to the vertex of the first one, and
an interconnect joins that to itself. -/
theorem not_separate_twoDevices : ¬ (twoDevices false).Separate twoBdfids ({} : Graph 1) ∧
    ((twoDevices false).deviceLoop ({} : Graph 1)).2.1 = [0, 0] ∧
    ⟨0, 0, .gpuInterconnect⟩ ∈ ((twoDevices false).initGraph ({} : Graph 1)).2.edges := by
  have hvertices : ((twoDevices false).deviceLoop ({} : Graph 1)).2.1 = [0, 0] := by
    decide +kernel
  refine ⟨fun h => ?_, hvertices, by decide +kernel⟩
  have hnodup := h.vertices_nodup
  rw [hvertices] at hnodup
  exact absurd hnodup (by decide)

end RocmSource

end Yloc
