import Yloc.Growth
import Yloc.HwlocEmbedding
import Yloc.OrderIndependence
import Yloc.Placement
import Yloc.RankPlacement
import Yloc.VertexTypes

/-!
Where the ranks of the local host are attached in the tree of hwloc.

`lowest_containing_vertex` searches the graph, into which the other modules have put edges
and adapters of their own. None of them gets in its way: below the local machine the CHILD
edges are those of the tree, only adapters of hwloc answer a mask, and ranks attached before
are no candidates. So a search in the graph is a search in the tree, for the object below
which the rank is attached.

* `HwlocSource.Descends`, `HwlocSource.EndsAt`: the search in the tree, by positions.
* `mem_sourcesOps_hwloc`: an operation of a run is one of hwloc or of another module.
* `TreeIn`: the tree in the graph that the modules of order FIRST leave.
* `TreeIn.endsAt`: searches in the graph are searches in the tree.
* `Graph.AddsRanks.makeMpiRanks_found`: the rounds of `ModuleMPI` attach the ranks where
  searches end in the graph before them.
* `localRank_object`: so does `init`.
-/

namespace Yloc

open Relation

variable {n : ℕ}

/-! ### The search in the tree -/

namespace HwlocSource

variable (hw : HwlocSource)

/-- The object at the position `q` is a child of the one at the position `p`. -/
def ChildAt (p q : ℕ) : Prop := (p, q) ∈ hw.children.pairs 1 0

/-- The CPUs of the object at a position. -/
def maskAt (n q : ℕ) : Option (AffinityMask n) :=
  hw.objects[q]?.bind fun obj => (hw.api.hwlocAdapter n obj).cpuAffinityMask

/-- The object at a position has the CPUs of the query. -/
def Holds (mask : AffinityMask n) (q : ℕ) : Prop :=
  ∃ m, hw.maskAt n q = some m ∧ m.isContaining mask = true

/-- The number of CPUs of the object at a position. -/
def countAt (n q : ℕ) : ℕ := ((hw.maskAt n q).map AffinityMask.count).getD 0

/-- From an object to a child that has the CPUs of the query, of those with the fewest
CPUs. -/
def Descends (mask : AffinityMask n) (p q : ℕ) : Prop :=
  (hw.ChildAt p q ∧ hw.Holds mask q) ∧
    ∀ r, hw.ChildAt p r → hw.Holds mask r → hw.countAt n q ≤ hw.countAt n r

/-- The search from the machine ends at the object at the position `q`. -/
def EndsAt (mask : AffinityMask n) (q : ℕ) : Prop :=
  ReflTransGen (hw.Descends mask) 0 q ∧ ∀ r, hw.ChildAt q r → ¬ hw.Holds mask r

end HwlocSource

/-! ### The operations of hwloc among those of a run -/

section

variable {sources : List ModuleSource} {hw : HwlocSource}

/-- Without another module of its kind, hwloc numbers its objects from where the run does. -/
lemma hwlocOps_subset_sourcesOps (hkinds : (sources.map ModuleSource.kind).Nodup)
    (hmem : .hwloc hw ∈ sources) (hversion : hw.checkHwlocApiVersion = .success) (s : ℕ) :
    (hw.ops s : List (TopologyOp n)) ⊆ sourcesOps s sources := by
  induction sources with
  | nil => cases hmem
  | cons m sources ih =>
      rw [List.map_cons, List.nodup_cons] at hkinds
      rw [sourcesOps]
      rcases List.mem_cons.mp hmem with rfl | hrest
      · rw [ModuleSource.ops, if_pos hversion]
        exact List.subset_append_left _ _
      · have hcount : m.objectCount = 0 := by
          cases m with
          | hwloc hw' =>
              exact absurd (List.mem_map.mpr ⟨ModuleSource.hwloc hw, hrest, rfl⟩) hkinds.1
          | _ => rfl
        rw [hcount, Nat.add_zero]
        exact List.subset_append_of_subset_right _ (ih hkinds.2 hrest)

/-- **An operation of a run** is one of hwloc or of another module. -/
lemma mem_sourcesOps_hwloc (hkinds : (sources.map ModuleSource.kind).Nodup)
    (hmem : .hwloc hw ∈ sources) {s : ℕ} {op : TopologyOp n} (h : op ∈ sourcesOps s sources) :
    op ∈ hw.ops s ∨ ∃ m : ModuleSource, m.kind ≠ .hwloc ∧ ∃ s', op ∈ m.ops s' := by
  induction sources with
  | nil => cases hmem
  | cons m sources ih =>
      rw [List.map_cons, List.nodup_cons] at hkinds
      rw [sourcesOps] at h
      rcases List.mem_cons.mp hmem with rfl | hmem
      · rcases List.mem_append.mp h with h | h
        · rw [ModuleSource.ops] at h
          split at h
          · exact .inl h
          · cases h
        · obtain ⟨m, hm, s', hop⟩ := mem_sourcesOps h
          refine .inr ⟨m, fun hkind => hkinds.1 ?_, s', hop⟩
          exact List.mem_map.mpr ⟨m, hm, hkind⟩
      · have hkind : m.kind ≠ .hwloc := fun hkind =>
          hkinds.1 (hkind ▸ List.mem_map_of_mem (f := ModuleSource.kind) hmem)
        have hcount : m.objectCount = 0 := by
          cases m with
          | hwloc hw' => exact absurd rfl hkind
          | _ => rfl
        rw [hcount, Nat.add_zero] at h
        rcases List.mem_append.mp h with h | h
        · exact .inr ⟨m, hkind, s, h⟩
        · exact ih hkinds.2 hmem h

/-- The other modules add no adapter with a mask. -/
lemma ModuleSource.put_mask {m : ModuleSource} (hkind : m.kind ≠ .hwloc) {s : ℕ} {k : Key}
    {f : Vertex n → Vertex n} (h : .put k f ∈ m.ops s) (x : Vertex n) :
    ∀ a ∈ (f x).mAdapters, a ∈ x.mAdapters ∨ a.cpuAffinityMask = none := by
  have hadd : ∀ a' : Adapter n, a'.cpuAffinityMask = none →
      ∀ a ∈ x.mAdapters ++ [a'], a ∈ x.mAdapters ∨ a.cpuAffinityMask = none := by
    intro a' hmask a ha
    rcases List.mem_append.mp ha with ha | ha
    · exact .inl ha
    · rw [List.mem_singleton.mp ha]
      exact .inr hmask
  cases m with
  | hwloc hw => exact absurd rfl hkind
  | mpi source => cases h
  | superMUC source =>
      rw [ModuleSource.ops] at h
      split at h
      · rcases mem_supermucOps h with ⟨hostname, hop⟩ | ⟨name, hop⟩ | ⟨name, b, hop⟩ <;> cases hop
        · exact hadd _ rfl
        · exact hadd _ rfl
      · cases h
  | rocm source =>
      rcases RocmSource.mem_ops h with ⟨b, device, index, -, -, hop⟩ | ⟨b, b', hop⟩ <;> cases hop
      exact hadd _ rfl
  | nvml source =>
      rcases List.mem_append.mp h with h | h
      · obtain ⟨b, device, hop⟩ := mem_nvmlPuts h
        cases hop
        exact hadd _ rfl
      · obtain ⟨a, -, b, -, hop⟩ := mem_peerOps h
        cases hop

end

/-! ### The tree in the graph -/

/-- The tree of hwloc is in the graph `g`, below its root vertex, with the object at the
position `q` at the vertex `phi q`. -/
structure TreeIn (hw : HwlocSource) (g : Graph n) (phi : ℕ → VertexT) : Prop where
  root : phi 0 = g.mRootVertex
  injOn : Set.InjOn phi (Set.Iio hw.objects.length)
  adapter : ∀ q obj, hw.objects[q]? = some obj →
    hw.api.hwlocAdapter n obj ∈ (g.vertex (phi q)).mAdapters
  mask : ∀ q < hw.objects.length, (g.vertex (phi q)).cpuAffinityMask = hw.maskAt n q
  type : ∀ q < hw.objects.length, (g.vertex (phi q)).mType.isA .mpiProcess = false
  child : ∀ q < hw.objects.length, ∀ v, g.Child (phi q) v ↔ ∃ r, hw.ChildAt q r ∧ v = phi r

section

variable {hw : HwlocSource} {g : Graph n} {phi : ℕ → VertexT} {mask : AffinityMask n}

/-- Positions of children are positions of objects. -/
lemma HwlocSource.ChildAt.lt {p q : ℕ} (h : hw.ChildAt p q) : q < hw.objects.length := by
  have hrange := (HwlocChildren.mem_pairs h).2.2
  rw [objects, List.length_cons]
  omega

lemma HwlocSource.ChildAt.parent_lt {p q : ℕ} (h : hw.ChildAt p q) : p < hw.objects.length := by
  have hrange := (HwlocChildren.mem_pairs h).1
  rw [objects, List.length_cons]
  omega

namespace TreeIn

/-- The candidates below an object are its children that have the CPUs. -/
lemma eligibleChild_iff (h : TreeIn hw g phi) {q : ℕ} (hq : q < hw.objects.length) {v : VertexT} :
    g.EligibleChild mask (phi q) v ↔ ∃ r, (hw.ChildAt q r ∧ hw.Holds mask r) ∧ v = phi r := by
  have heligible : ∀ r < hw.objects.length,
      g.eligible mask (phi r) = true ↔ hw.Holds mask r := by
    intro r hr
    rw [Graph.eligible, h.mask r hr, h.type r hr, Bool.not_false, Bool.and_true,
      Option.any_eq_true]
    rfl
  rw [Graph.EligibleChild, h.child q hq]
  constructor
  · rintro ⟨⟨r, hr, rfl⟩, helig⟩
    exact ⟨r, ⟨hr, (heligible r hr.lt).mp helig⟩, rfl⟩
  · rintro ⟨r, ⟨hr, hholds⟩, rfl⟩
    exact ⟨⟨r, hr, rfl⟩, (heligible r hr.lt).mpr hholds⟩

lemma maskCount_eq (h : TreeIn hw g phi) {q : ℕ} (hq : q < hw.objects.length) :
    g.maskCount (phi q) = hw.countAt n q := by
  rw [Graph.maskCount, h.mask q hq, HwlocSource.countAt]

/-- One step of the search. -/
lemma descends (h : TreeIn hw g phi) {q : ℕ} (hq : q < hw.objects.length) {v : VertexT}
    (hv : g.Descends mask (phi q) v) : ∃ r, hw.Descends mask q r ∧ v = phi r := by
  obtain ⟨r, hr, rfl⟩ := (h.eligibleChild_iff hq).mp hv.1
  refine ⟨r, ⟨hr, fun r' hchild hholds => ?_⟩, rfl⟩
  have hcount := hv.2 (phi r') ((h.eligibleChild_iff hq).mpr ⟨r', ⟨hchild, hholds⟩, rfl⟩)
  rwa [h.maskCount_eq hr.1.lt, h.maskCount_eq hchild.lt] at hcount

/-- **A search in the graph is a search in the tree.** -/
theorem endsAt (h : TreeIn hw g phi) {v : VertexT}
    (hv : ReflTransGen (g.Descends mask) g.mRootVertex v) (hnil : g.candidates mask v = []) :
    ∃ q, hw.EndsAt mask q ∧ v = phi q := by
  have hsearch : ∃ q < hw.objects.length, ReflTransGen (hw.Descends mask) 0 q ∧ v = phi q := by
    clear hnil
    rw [← h.root] at hv
    induction hv with
    | refl => exact ⟨0, Nat.succ_pos _, .refl, rfl⟩
    | tail _ hstep ih =>
        obtain ⟨p, hp, hreach, rfl⟩ := ih
        obtain ⟨q, hq, rfl⟩ := h.descends hp hstep
        exact ⟨q, hq.1.1.lt, hreach.tail hq, rfl⟩
  obtain ⟨q, hq, hreach, rfl⟩ := hsearch
  refine ⟨q, ⟨hreach, fun r hchild hholds => ?_⟩, rfl⟩
  exact Graph.candidates_eq_nil.mp hnil (phi r)
    ((h.eligibleChild_iff hq).mpr ⟨r, ⟨hchild, hholds⟩, rfl⟩)

end TreeIn

end

/-! ### The tree after the modules of order FIRST -/

section

variable {sources : List ModuleSource} {hw : HwlocSource} {φ : Key → Option VertexT} {g : Graph n}

/-- The mask of a vertex is what its adapters agree on. -/
lemma cpuAffinityMask_of_mem {x : Vertex n} {a : Adapter n} (ha : a ∈ x.mAdapters)
    (hx : ∀ b ∈ x.mAdapters, b.cpuAffinityMask = none ∨ b = a) :
    x.cpuAffinityMask = a.cpuAffinityMask := by
  have hget : x.cpuAffinityMask = x.mAdapters.findSome? fun b => b.cpuAffinityMask := rfl
  rw [hget]
  cases hmask : a.cpuAffinityMask with
  | none =>
      refine List.findSome?_eq_none_iff.mpr fun b hb => ?_
      rcases hx b hb with hb | rfl
      · exact hb
      · exact hmask
  | some m =>
      cases hfind : x.mAdapters.findSome? fun b => b.cpuAffinityMask with
      | none =>
          rw [List.findSome?_eq_none_iff] at hfind
          rw [hfind a ha] at hmask
          cases hmask
      | some m' =>
          obtain ⟨l₁, b, l₂, hl, hb, -⟩ := List.findSome?_eq_some_iff.mp hfind
          rcases hx b (by rw [hl]; simp) with hnone | rfl
          · rw [hnone] at hb
            cases hb
          · exact hb.symm.trans hmask

/-- Adapters with a mask are those of hwloc for the objects. -/
lemma sourcesOps_mask (hkinds : (sources.map ModuleSource.kind).Nodup)
    (hmem : .hwloc hw ∈ sources) {s : ℕ} {k : Key} {x : Vertex n}
    (hx : (Topology.run (sourcesOps s sources) Keyed.empty).info k = some x) :
    ∀ a ∈ x.mAdapters, a.cpuAffinityMask = none ∨ ∃ q obj, hw.objects[q]? = some obj ∧
      k = hw.keyAt s q ∧ a = hw.api.hwlocAdapter n obj := by
  refine Topology.adapters_run (P := fun k a => a.cpuAffinityMask = none ∨
    ∃ q obj, hw.objects[q]? = some obj ∧ k = hw.keyAt s q ∧ a = hw.api.hwlocAdapter n obj)
    (fun k f hf x a ha => ?_) (fun k x hx => by cases hx) k x hx
  rcases mem_sourcesOps_hwloc hkinds hmem hf with hop | ⟨m, hkind, s', hop⟩
  · rcases List.mem_cons.mp hop with hop | hop
    · cases hop
      rw [HwlocSource.contributeRoot, GraphElement.setTypeIfUnknown_mAdapters] at ha
      rcases List.mem_append.mp ha with ha | ha
      · exact .inl ha
      · exact .inr (.inr ⟨0, hw.root, rfl, rfl, List.mem_singleton.mp ha⟩)
    · rcases HwlocApi.mem_hwlocOps hop with ⟨obj, i, hobj, hop⟩ | ⟨a, b, hop⟩
      · cases hop
        obtain ⟨i, rfl⟩ := Nat.exists_eq_add_of_le (List.mem_zipIdx hobj).1
        have hget := List.mk_add_mem_zipIdx_iff_getElem?.mp hobj
        rw [HwlocApi.contribute, GraphElement.setTypeIfUnknown_mAdapters,
          GraphElement.addAdapter_mAdapters, GraphElement.describeIfEmpty_mAdapters] at ha
        rcases List.mem_append.mp ha with ha | ha
        · exact .inl ha
        · exact .inr (.inr ⟨i + 1, obj, hget, (HwlocSource.keyAt_succ hget).symm,
            List.mem_singleton.mp ha⟩)
      · cases hop
  · rcases ModuleSource.put_mask hkind hop x a ha with ha | ha
    · exact .inl ha
    · exact .inr (.inl ha)

/-- Different objects have different keys. -/
lemma HwlocSource.keyAt_inj (hbdfids : hw.DistinctBdfids) {s p q : ℕ}
    (hp : p < hw.objects.length) (hq : q < hw.objects.length)
    (heq : hw.keyAt s p = hw.keyAt s q) : p = q := by
  refine (List.getElem?_inj (by rwa [allKeys_length]) (allKeys_nodup hbdfids s)).mp ?_
  rw [allKeys_getElem? hp, allKeys_getElem? hq, heq]

/-- The key of an object is that of no component of a system. -/
lemma HwlocSource.keyAt_ne_systemKey {s q : ℕ} (hq : q < hw.objects.length) (name : String) :
    hw.keyAt s q ≠ systemKey name := by
  intro heq
  rcases List.mem_cons.mp (List.mem_of_getElem? (allKeys_getElem? (s := s) hq)) with h | h
  · exact machineId_ne_systemId _ _ (Key.name.inj (h.symm.trans heq))
  · exact (HwlocApi.isObject_of_mem h).ne_name (fun b => systemId_ne_bdfidId _ b) heq

/-- It is that of no rank. -/
lemma HwlocSource.keyAt_ne_mpiRankKey {s q : ℕ} (hq : q < hw.objects.length) (i : ℕ) :
    hw.keyAt s q ≠ mpiRankKey i := by
  intro heq
  rcases List.mem_cons.mp (List.mem_of_getElem? (allKeys_getElem? (s := s) hq)) with h | h
  · exact machineId_ne_mpiRankId _ _ (Key.name.inj (h.symm.trans heq))
  · exact (HwlocApi.isObject_of_mem h).ne_name (fun b => mpiRankId_ne_bdfidId _ b) heq

/-- The CHILD edges that the module adds are the pairs of the tree. -/
lemma HwlocSource.ops_one_childArcs (hw : HwlocSource) :
    (hw.ops 1 : List (TopologyOp n)).filterMap TopologyOp.childArc =
      (hw.children.pairs 1 0).map (Prod.map (hw.keyAt 1) (hw.keyAt 1)) := by
  have harcs : (hw.api.hwlocOps (0 + 1) (hw.keyAt 1 0) hw.children :
      List (TopologyOp n)).filterMap TopologyOp.childArc =
        (hw.children.pairs 1 0).map (Prod.map (hw.keyAt 1) (hw.keyAt 1)) := by
    refine HwlocApi.hwlocOps_childArc (hw.keyAt 1) 0 0 fun i obj hi => ?_
    rw [Nat.add_comm 1 i, HwlocSource.keyAt_succ hi]
    congr 1
    omega
  exact harcs

variable (hkinds : (sources.map ModuleSource.kind).Nodup) (hmem : .hwloc hw ∈ sources)
  (hversion : hw.checkHwlocApiVersion = .success) (hbdfids : hw.DistinctBdfids)

include hkinds hmem hversion hbdfids

/-- The CHILD edges out of an object are those of the tree. -/
lemma sourcesOps_child_iff {q : ℕ} (hq : q < hw.objects.length) {b : Key} :
    (Topology.run (sourcesOps 1 sources) (Keyed.empty : Topology n)).Child (hw.keyAt 1 q) b ↔
      ∃ r, hw.ChildAt q r ∧ b = hw.keyAt 1 r := by
  have hops : ∀ a b, .child a b ∈ (hw.ops 1 : List (TopologyOp n)) ↔
      ∃ p r, hw.ChildAt p r ∧ a = hw.keyAt 1 p ∧ b = hw.keyAt 1 r := by
    intro a b
    rw [← TopologyOp.mem_childArcs, HwlocSource.ops_one_childArcs, List.mem_map]
    constructor
    · rintro ⟨⟨p, r⟩, hpair, heq⟩
      obtain ⟨rfl, rfl⟩ := Prod.mk.inj heq
      exact ⟨p, r, hpair, rfl, rfl⟩
    · rintro ⟨p, r, hpair, rfl, rfl⟩
      exact ⟨(p, r), hpair, rfl⟩
  constructor
  · intro h
    rcases Topology.child_of_run h with hnone | hop | hop
    · cases hnone
    · rcases mem_sourcesOps_hwloc hkinds hmem hop with hop | ⟨m, hkind, s', hop⟩
      · obtain ⟨p, r, hchild, hkey, rfl⟩ := (hops _ _).mp hop
        obtain rfl := HwlocSource.keyAt_inj hbdfids hq hchild.parent_lt hkey
        exact ⟨r, hchild, rfl⟩
      · rw [← TopologyOp.mem_childArcs, ModuleSource.ops_childArcs hkind] at hop
        cases hop
    · obtain ⟨sm, -, hostname, -, harc⟩ := sourcesOps_childIfNew hop
      obtain ⟨name, hname⟩ := harc.source_system
      exact absurd hname (HwlocSource.keyAt_ne_systemKey hq name)
  · rintro ⟨r, hchild, rfl⟩
    exact Topology.child_of_mem (hwlocOps_subset_sourcesOps hkinds hmem hversion 1
      ((hops _ _).mpr ⟨q, r, hchild, rfl, rfl⟩))

/-- **The tree in the graph** that the modules of order FIRST leave. -/
theorem Represents.treeIn
    (h : Represents φ g (Topology.run (sourcesOps 1 sources) Keyed.empty))
    (hroot : φ (machineKey hw.hostname) = some g.mRootVertex) :
    TreeIn hw g fun q => place φ (hw.keyAt 1 q) := by
  have hsubset := hwlocOps_subset_sourcesOps (n := n) hkinds hmem hversion 1
  have hobject : ∀ q < hw.objects.length, ∃ obj, hw.objects[q]? = some obj := fun q hq =>
    ⟨_, List.getElem?_eq_getElem hq⟩
  -- every object has a vertex
  have hplace : ∀ q < hw.objects.length, φ (hw.keyAt 1 q) = some (place φ (hw.keyAt 1 q)) := by
    intro q hq
    obtain ⟨obj, hobj⟩ := hobject q hq
    obtain ⟨k, f, hk, hput, -⟩ := HwlocSource.exists_put (n := n) 1 hobj
    obtain rfl := Option.some.inj ((HwlocSource.allKeys_getElem? hq).symm.trans hk)
    obtain ⟨v, hv⟩ := h.exists_place (Topology.run_info_isSome.mpr
      (.inr (List.mem_filterMap.mpr ⟨_, hsubset hput, rfl⟩)))
    rw [hv, place_eq hv]
  have hadapter : ∀ q obj, hw.objects[q]? = some obj →
      hw.api.hwlocAdapter n obj ∈ (g.vertex (place φ (hw.keyAt 1 q))).mAdapters := by
    intro q obj hobj
    have hq := (List.getElem?_eq_some_iff.mp hobj).1
    obtain ⟨k, f, hk, hput, hadds, -⟩ := HwlocSource.exists_put (n := n) 1 hobj
    obtain rfl := Option.some.inj ((HwlocSource.allKeys_getElem? hq).symm.trans hk)
    obtain ⟨x, hx, ha⟩ := Topology.adapter_of_mem (T := Keyed.empty) (fun op hop =>
      (mem_sourcesOps hop).imp fun _ hm => hm.2) (hsubset hput)
      (fun v => by rw [hadds]; exact List.mem_append_right _ List.mem_cons_self)
    rw [h.info_vertex (hplace q hq)] at hx
    rwa [Option.some.inj hx]
  refine ⟨place_eq hroot, fun p hp q hq heq => ?_, hadapter, fun q hq => ?_, fun q hq => ?_,
    fun q hq v => ?_⟩
  · refine HwlocSource.keyAt_inj hbdfids hp hq (h.inj _ _ _ (hplace p hp) ?_)
    rw [hplace q hq]
    exact congrArg some heq.symm
  · obtain ⟨obj, hobj⟩ := hobject q hq
    rw [cpuAffinityMask_of_mem (hadapter q obj hobj) fun a ha => ?_, HwlocSource.maskAt, hobj]
    · rfl
    · refine (sourcesOps_mask hkinds hmem (h.info_vertex (hplace q hq)) a ha).imp_right ?_
      rintro ⟨q', obj', hobj', hkey, rfl⟩
      have hq' := (List.getElem?_eq_some_iff.mp hobj').1
      obtain rfl := HwlocSource.keyAt_inj hbdfids hq hq' hkey
      rw [Option.some.inj (hobj'.symm.trans hobj)]
  · by_contra htype
    have htypeAt : TypeAt (gpuBdfids sources) (hw.keyAt 1 q)
        (g.vertex (place φ (hw.keyAt 1 q))).mType := by
      refine Topology.info_run (P := fun k x => TypeAt (gpuBdfids sources) k x.mType)
        (fun k f hf x hx => ?_) (fun k x hx => by cases hx) _ _ (h.info_vertex (hplace q hq))
      obtain ⟨t, ht, hassigns⟩ := put_typeAt_sources hf
      exact hassigns.typeAt ht hx
    obtain ⟨i, hi⟩ := htypeAt.rank_of_mpiProcess (by simpa using htype)
    exact HwlocSource.keyAt_ne_mpiRankKey hq i hi
  · constructor
    · intro hchild
      obtain ⟨a, b, ha, hb, hstep⟩ := h.exists_of_step hchild
      obtain rfl := h.inj _ _ _ ha (hplace q hq)
      obtain ⟨r, hr, rfl⟩ := (sourcesOps_child_iff hkinds hmem hversion hbdfids hq).mp hstep
      exact ⟨r, hr, (place_eq hb).symm⟩
    · rintro ⟨r, hr, rfl⟩
      exact (h.step_iff (hplace q hq) (hplace r hr.lt)).mpr
        ((sourcesOps_child_iff hkinds hmem hversion hbdfids hq).mpr ⟨r, hr, rfl⟩)

end

/-! ### Searches among ranks -/

namespace Graph

/-- A search for the mask may end at `vd`. -/
def SearchEnds (g : Graph n) (mask : AffinityMask n) (vd : VertexT) : Prop :=
  ReflTransGen (g.Descends mask) g.mRootVertex vd ∧ g.candidates mask vd = []

namespace AddsRanks

variable {g g' : Graph n}

/-- A step of the search among ranks. -/
lemma descends (h : g.AddsRanks g') (hg : g.WellFormed) {mask : AffinityMask n} {u v : VertexT}
    (huv : g'.Descends mask u v) : g.Descends mask u v := by
  have heligible : ∀ w, g'.EligibleChild mask u w ↔ g.EligibleChild mask u w := fun w => by
    rw [← mem_candidates, ← mem_candidates, h.candidates hg]
  have hcount : ∀ w, g.EligibleChild mask u w → g'.maskCount w = g.maskCount w := fun w hw => by
    rw [maskCount, maskCount, h.vertex w (hg.ends _ hw.1).2]
  have hv := (heligible v).mp huv.1
  refine ⟨hv, fun w hw => ?_⟩
  rw [← hcount v hv, ← hcount w hw]
  exact huv.2 w ((heligible w).mpr hw)

/-- Ranks are no place for a search to end. -/
lemma searchEnds (h : g.AddsRanks g') (hg : g.WellFormed) {mask : AffinityMask n} {vd : VertexT}
    (hvd : g'.SearchEnds mask vd) : g.SearchEnds mask vd := by
  rw [SearchEnds, h.root, h.candidates hg] at hvd
  exact ⟨ReflTransGen.mono (fun _ _ huv => h.descends hg huv) _ _ hvd.1, hvd.2⟩

end AddsRanks

end Graph

/-- Rank `i` is attached in the graph `g'`, on the local host where a search for its mask ends
in the graph `g`. -/
def MpiSource.Found (source : MpiSource) (g g' : Graph n) (i : Fin source.nbproc) : Prop :=
  ∃ vd rankVd, g'.lookup (mpiRankId i) = some rankVd ∧ ⟨vd, rankVd, .child⟩ ∈ g'.edges ∧
    ∀ mask, source.localMask n i = some mask → g.SearchEnds mask vd

section

variable {S : StdSort VertexT} {source : MpiSource} {g g' g'' : Graph n}

/-- **A round attaches its rank** where a search ends in the graph before all rounds. -/
lemma Graph.AddsRanks.makeMpiRank_found (h : g.AddsRanks g') (hg : g.WellFormed)
    {i : Fin source.nbproc} (hi : g'.lookup (mpiRankId i) = none)
    (hrun : Yloc.makeMpiRank S source g' i = .ok g'') :
    g.AddsRanks g'' ∧ source.Found g g'' i ∧
      ∀ j, j ≠ i → g''.lookup (mpiRankId j) = g'.lookup (mpiRankId j) := by
  obtain ⟨machineVd, rankVd, g₁, hround, hadds, hvertices⟩ := h.makeMpiRank S hi
  rw [hround] at hrun
  obtain ⟨vd, hvd, rfl⟩ := Except.exists_of_map hrun
  have hplace : vd < g₁.numVertices ∧
      ∀ mask, source.localMask n i = some mask → g.SearchEnds mask vd := by
    cases hmask : source.localMask n i with
    | none =>
        rw [hmask] at hvd
        obtain rfl := Except.ok.inj hvd
        exact ⟨hadds.wellFormed.bound _ _ hvertices.machine, fun mask h => by cases h⟩
    | some mask =>
        rw [hmask] at hvd
        obtain ⟨hlt, hends⟩ := lowestContainingVertex_spec hvd
        refine ⟨hlt, fun mask' hmask' => ?_⟩
        obtain rfl := Option.some.inj hmask'
        exact hadds.searchEnds hg hends
  refine ⟨hadds.addEdges hplace.1 hvertices.lt hvertices.type,
    ⟨vd, rankVd, hvertices.rank, ?_, hplace.2⟩, hvertices.others⟩
  simp [Graph.addEdge]

/-- **The rounds for a list of ranks.** -/
theorem Graph.AddsRanks.makeMpiRanks_found (h : g.AddsRanks g') (hg : g.WellFormed)
    {ranks : List (Fin source.nbproc)} (hnodup : ranks.Nodup)
    (hnew : ∀ i ∈ ranks, g'.lookup (mpiRankId i) = none)
    (hrun : ranks.foldlM (Yloc.makeMpiRank S source) g' = .ok g'') :
    g.AddsRanks g'' ∧ ∀ i ∈ ranks, source.Found g g'' i := by
  induction ranks generalizing g' with
  | nil =>
      obtain rfl := Except.ok.inj hrun
      exact ⟨h, by simp⟩
  | cons i ranks ih =>
      obtain ⟨hi, hnodup⟩ := List.nodup_cons.mp hnodup
      rw [List.foldlM_cons] at hrun
      obtain ⟨g₁, hround, hrest⟩ := Except.exists_of_bind hrun
      obtain ⟨h₁, ⟨vd, rankVd, hrank, hedge, hends⟩, hothers⟩ :=
        h.makeMpiRank_found hg (hnew i List.mem_cons_self) hround
      obtain ⟨h₂, hfound⟩ := ih h₁ hnodup (fun j hj => by
        rw [hothers j (ne_of_mem_of_not_mem hj hi), hnew j (List.mem_cons_of_mem _ hj)]) hrest
      refine ⟨h₂, fun j hj => ?_⟩
      rcases List.mem_cons.mp hj with rfl | hj
      · -- later rounds leave the rank and its edge
        have hgrows := (makeMpiGraph_steps h₁.wellFormed hrest).grows
        exact ⟨vd, rankVd, hgrows.lookup _ _ hrank, hgrows.edges.subset hedge, hends⟩
      · exact hfound j hj

end

/-! ### The ranks after `init` -/

/-- More ranks leave the tree as it is. -/
lemma TreeIn.child_of_childAt {hw : HwlocSource} {g g' : Graph n} {phi : ℕ → VertexT}
    (h : TreeIn hw g phi) (hadds : g.AddsRanks g') {p q : ℕ} (hpq : hw.ChildAt p q) :
    g'.Child (phi p) (phi q) := by
  obtain ⟨new, hedges, -⟩ := hadds.edges
  have hchild := (h.child p hpq.parent_lt _).mpr ⟨q, hpq, rfl⟩
  rw [Graph.Child, Arc.Step, hedges]
  exact List.mem_append_left _ hchild

section

variable {sources : List ModuleSource} {g : Graph n}

/-- The graph before `ModuleMPI` has the tree in it. -/
lemma exists_treeIn (S : StdSort VertexT) (hfirst : ∀ m ∈ sources, m.IsFirst)
    (hkinds : (sources.map ModuleSource.kind).Nodup) {hw : HwlocSource}
    (hmem : .hwloc hw ∈ sources) (hversion : hw.checkHwlocApiVersion = .success)
    (hbdfids : hw.DistinctBdfids) :
    ∃ g₀ : Graph n, runSources S sources {} = .ok g₀ ∧ g₀.WellFormed ∧
      (∀ i, g₀.lookup (mpiRankId i) = none) ∧ ∃ phi, TreeIn hw g₀ phi := by
  obtain ⟨φ, g₀, hrun, hrep, -, hroot⟩ :=
    runSources_represents S hfirst (Represents.empty (n := n)) (s := 1) fun i _ => rfl
  have hmachine : φ (machineKey hw.hostname) = some g₀.mRootVertex := by
    rcases hroot with ⟨hw', hmem', -, hroot⟩ | ⟨hnone, -⟩
    · have heq : ModuleSource.hwloc hw' = .hwloc hw :=
        List.inj_on_of_nodup_map hkinds hmem' hmem rfl
      rwa [ModuleSource.hwloc.inj heq] at hroot
    · exact absurd hversion (hnone hw hmem)
  refine ⟨g₀, hrun, hrep.wellFormed, fun i => ?_, _,
    hrep.treeIn hkinds hmem hversion hbdfids hmachine⟩
  rw [hrep.ids, hrep.info_eq_none_iff.mp (sourcesOps_info_mpi sources 1 i)]

/-- A CHILD edge into a rank is the only one. -/
lemma incomingChild_of_runMpi {S : StdSort VertexT} (hfirst : ∀ m ∈ sources, m.IsFirst)
    {source : MpiSource} (hinit : source.initialized = true)
    (hrun : runSources S (sources ++ [.mpi source]) ({} : Graph n) = .ok g)
    {i : Fin source.nbproc} {vd rankVd : VertexT} (hrank : g.lookup (mpiRankId i) = some rankVd)
    (hedge : ⟨vd, rankVd, .child⟩ ∈ g.edges) :
    g.incomingChild rankVd = [⟨vd, rankVd, .child⟩] := by
  obtain ⟨φ, φ', g₀, place, hrep, -, -, hadv, -, -, -⟩ := runMpi_advance hfirst hrun
  have hkey : φ' (mpiRankKey i) = some rankVd := by rw [← hadv.rep.ids, hrank]
  have hincoming := hadv.rep.incomingChild hkey
  rw [Topology.run, runOps_append, MpiSource.ops, if_pos hinit, mpiOps_incoming,
    hrep.incoming_eq_nil (sourcesOps_info_mpi _ _ _), List.nil_append, List.map_singleton]
    at hincoming
  have hmem : (⟨vd, rankVd, .child⟩ : Edge) ∈ g.incomingChild rankVd :=
    List.mem_filter.mpr ⟨hedge, by simp⟩
  rw [hincoming] at hmem ⊢
  rw [List.mem_singleton.mp hmem]

end

/-- **Ranks of the local host are attached in the tree of hwloc**: after `init` the tree is in
the graph below the root vertex, and a rank that runs on the local host has one incoming
CHILD edge, from an object of the tree where a search in the tree for its mask ends. The
edges and adapters of other modules and of other ranks make no difference. -/
theorem localRank_object (S : StdSort VertexT) (S' : StdSort Module) {modules : List Module}
    (hkinds : (modules.map fun m => m.source.kind).Nodup) {hw : HwlocSource}
    (hhwloc : ⟨.hwloc hw, true⟩ ∈ modules) (hversion : hw.checkHwlocApiVersion = .success)
    (hbdfids : hw.DistinctBdfids) {source : MpiSource} (hmpi : ⟨.mpi source, true⟩ ∈ modules)
    (hinit : source.initialized = true) {status : YlocStatus} {g : Graph n}
    (hrun : init S S' modules ({} : Graph n) = .ok (status, g)) :
    ∃ phi : ℕ → VertexT, phi 0 = g.mRootVertex ∧
      Set.InjOn phi (Set.Iio hw.objects.length) ∧
      (∀ q obj, hw.objects[q]? = some obj →
        hw.api.hwlocAdapter n obj ∈ (g.vertex (phi q)).mAdapters) ∧
      (∀ p q, hw.ChildAt p q → g.Child (phi p) (phi q)) ∧
      ∀ (i : Fin source.nbproc) mask, source.localMask n i = some mask →
        ∃ q rankVd, hw.EndsAt mask q ∧ g.lookup (mpiRankId i) = some rankVd ∧
          g.incomingChild rankVd = [⟨phi q, rankVd, .child⟩] := by
  obtain ⟨sources, source', hrun, hfirst, hkinds', hsources, hunique⟩ :=
    exists_runMpi_of_init hkinds hrun
  obtain rfl := hunique source hmpi
  have hmem := (hsources (.hwloc hw) rfl).mpr hhwloc
  obtain ⟨g₀, hrun₀, hg₀, hranks, phi, htree⟩ :=
    exists_treeIn (n := n) S hfirst hkinds' hmem hversion hbdfids
  -- the loop of `ModuleMPI`
  obtain ⟨status', hreturns⟩ := initGraph_of_runMpi hrun hrun₀
  rw [MpiSource.initGraph_eq, if_pos hinit] at hreturns
  obtain ⟨g', hloop, heq⟩ := Except.exists_of_map hreturns
  obtain rfl : g' = g := (Prod.mk.inj heq).2
  obtain ⟨hadds, hfound⟩ := (Graph.AddsRanks.refl hg₀).makeMpiRanks_found hg₀
    (List.nodup_finRange _) (fun i _ => hranks i) hloop
  refine ⟨phi, htree.root.trans hadds.root.symm, htree.injOn, fun q obj hobj => ?_,
    fun p q hpq => htree.child_of_childAt hadds hpq, fun i mask hmask => ?_⟩
  · have hadapter := htree.adapter q obj hobj
    have hlt : phi q < g₀.numVertices := by
      by_contra hge
      rw [Graph.vertex_of_le g₀ (not_lt.mp hge)] at hadapter
      cases hadapter
    rwa [hadds.vertex _ hlt]
  · obtain ⟨vd, rankVd, hrank, hedge, hends⟩ := hfound i (List.mem_finRange i)
    obtain ⟨hreach, hnil⟩ := hends mask hmask
    obtain ⟨q, hq, rfl⟩ := htree.endsAt hreach hnil
    exact ⟨q, rankVd, hq, hrank, incomingChild_of_runMpi hfirst hinit hrun hrank hedge⟩

/-- The first rank of `twoRanks` runs on the host of `smallMachine`. -/
theorem localRank_object_gpuModules : ∃ g : Graph 2,
    init .insertion .insertion gpuModules {} = .ok (.success, g) ∧
    ∃ phi : ℕ → VertexT, phi 0 = g.mRootVertex ∧
      Set.InjOn phi (Set.Iio smallMachine.objects.length) ∧
      (∀ q obj, smallMachine.objects[q]? = some obj →
        smallMachine.api.hwlocAdapter 2 obj ∈ (g.vertex (phi q)).mAdapters) ∧
      (∀ p q, smallMachine.ChildAt p q → g.Child (phi p) (phi q)) ∧
      ∀ (i : Fin 2) (mask : AffinityMask 2), twoRanks.localMask 2 i = some mask →
        ∃ q rankVd, smallMachine.EndsAt mask q ∧ g.lookup (mpiRankId i) = some rankVd ∧
          g.incomingChild rankVd = [⟨phi q, rankVd, .child⟩] := by
  obtain ⟨g, hinit⟩ := gpuModules_init
  have hhwloc : ⟨.hwloc smallMachine, true⟩ ∈ gpuModules := by simp [gpuModules]
  have hmpi : ⟨.mpi twoRanks, true⟩ ∈ gpuModules := List.mem_cons_self
  exact ⟨g, hinit, localRank_object .insertion .insertion (by decide) hhwloc (by decide)
    smallMachine_distinctBdfids hmpi rfl hinit⟩

end Yloc
