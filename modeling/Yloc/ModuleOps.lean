import Yloc.Init

/-!
What the modules of `init_order::FIRST` do to the topology.

`ModuleSource.ops` collects the operations of the modules; `sourcesOps` numbers
the objects of hwloc through the run. `runSources_represents` says that a run
of such modules makes these changes, whatever the order.

* `hwlocOps_child`, `supermucOps_childIfNew`: which CHILD edges the modules add.
* `exists_firsts`: in which order `init` runs the modules.
* `sourcesOps_putKey`: on which keys they put something.
-/

namespace Yloc

variable {n : ℕ}

namespace ModuleSource

/-- The number of objects that the module adds a vertex for. -/
def objectCount : ModuleSource → ℕ
  | hwloc source => source.children.objects.length
  | _ => 0

/-- The operations of a module of order `FIRST`, with the objects of hwloc
numbered from `s` on. -/
def ops (s : ℕ) : ModuleSource → List (TopologyOp n)
  | hwloc source => if source.checkHwlocApiVersion = .success then source.ops s else []
  | superMUC source => if source.check then supermucOps source.hostnames else []
  | rocm source => source.ops
  | nvml source => source.ops
  | mpi _ => []

/-- The kind of a module, of which `list_modules` has one each. -/
inductive Kind where
  | hwloc | mpi | superMUC | rocm | nvml
  deriving DecidableEq, Repr

/-- The kind of the module. -/
def kind : ModuleSource → Kind
  | hwloc _ => .hwloc
  | mpi _ => .mpi
  | superMUC _ => .superMUC
  | rocm _ => .rocm
  | nvml _ => .nvml

/-- The module is of order `FIRST`, and it does not throw: NVML answers all
queries for PCI information. -/
def IsFirst : ModuleSource → Prop
  | mpi _ => False
  | nvml source => ∀ device ∈ source.devices, device.pciInfo.isSome
  | _ => True

/-- A module of order FIRST returns if it does not throw. -/
lemma exists_initGraph (S : StdSort VertexT) {source : ModuleSource} (hfirst : source.IsFirst)
    (g : Graph n) : ∃ result, source.initGraph S g = .ok result := by
  cases source with
  | mpi source => exact absurd hfirst id
  | nvml source =>
      obtain ⟨g', hrun⟩ := NvmlSource.exists_initGraph hfirst g
      exact ⟨(.success, g'), hrun⟩
  | _ => exact ⟨_, rfl⟩

/-- A module of order FIRST that throws. -/
lemma exists_initGraph_error (S : StdSort VertexT) {source : ModuleSource}
    (horder : source.initOrder = .first) (hfirst : ¬ source.IsFirst) (g : Graph n) :
    ∃ e, source.initGraph S g = .error e := by
  cases source with
  | mpi source => cases horder
  | nvml source =>
      cases hrun : (ModuleSource.nvml source).initGraph S g with
      | error e => exact ⟨e, rfl⟩
      | ok result => exact absurd (NvmlSource.pciInfo_of_initGraph hrun) hfirst
  | _ => exact absurd trivial hfirst

end ModuleSource

/-- The operations of a run of modules. -/
def sourcesOps : ℕ → List ModuleSource → List (TopologyOp n)
  | _, [] => []
  | s, source :: sources => source.ops s ++ sourcesOps (s + source.objectCount) sources

/-- The root vertex that a run of modules leaves: that of the local machine when
hwloc has succeeded, else what it was. -/
def RootFrom (sources : List ModuleSource) (g g' : Graph n) (φ' : Key → Option VertexT) : Prop :=
  (∃ source, .hwloc source ∈ sources ∧ source.checkHwlocApiVersion = .success ∧
    φ' (machineKey source.hostname) = some g'.mRootVertex) ∨
  (∀ source, .hwloc source ∈ sources → source.checkHwlocApiVersion ≠ .success) ∧
    g'.mRootVertex = g.mRootVertex

/-! ### The order of a run -/

section

variable {S : StdSort Module} {modules : List Module}

/-- What `init` runs are the enabled modules. -/
lemma mem_enabledSources {source : ModuleSource} :
    source ∈ enabledSources (sortModules S modules) ↔ ⟨source, true⟩ ∈ modules := by
  rw [enabledSources, List.mem_map]
  constructor
  · rintro ⟨⟨source, enabled⟩, hm, rfl⟩
    obtain ⟨hmem, rfl : enabled = true⟩ := List.mem_filter.mp hm
    exact (S.perm _ _).mem_iff.mp hmem
  · exact fun h => ⟨_, List.mem_filter.mpr ⟨(S.perm _ _).mem_iff.mpr h, rfl⟩, rfl⟩

variable (S)

/-- `init` runs the modules by increasing `m_init_order`. -/
lemma enabledSources_sorted (modules : List Module) :
    (enabledSources (sortModules S modules)).Pairwise
      fun a b => a.initOrder.toNat ≤ b.initOrder.toNat :=
  List.pairwise_map.mpr ((S.sorted _ _).sublist List.filter_sublist)

/-- What runs before a module of order FIRST is of that order. -/
lemma initOrder_of_before {before after : List ModuleSource} {source : ModuleSource}
    (horder : enabledSources (sortModules S modules) = before ++ source :: after)
    (hfirst : source.initOrder = .first) : ∀ source' ∈ before, source'.initOrder = .first := by
  intro source' hmem
  have hsorted := enabledSources_sorted S modules
  rw [horder, List.pairwise_append] at hsorted
  have hle := hsorted.2.2 source' hmem source List.mem_cons_self
  rw [hfirst] at hle
  cases horder' : source'.initOrder with
  | first => rfl
  | second =>
      rw [horder'] at hle
      exact absurd hle (by decide)

variable (hkinds : (modules.map fun m => m.source.kind).Nodup)

include hkinds

lemma enabledSources_kinds_nodup :
    ((enabledSources (sortModules S modules)).map ModuleSource.kind).Nodup := by
  rw [enabledSources, List.map_map]
  have hsorted : ((sortModules S modules).map fun m => m.source.kind).Nodup :=
    (((S.perm _ _).map fun m => m.source.kind).nodup_iff).mpr hkinds
  exact hsorted.sublist (List.filter_sublist.map fun m : Module => m.source.kind)

/-- **What `init` runs** are modules of order FIRST, and `ModuleMPI` after them if it is
enabled. -/
theorem exists_firsts : ∃ firsts, (∀ source ∈ firsts, source.initOrder = .first) ∧
    (enabledSources (sortModules S modules) = firsts ∨
      ∃ source, enabledSources (sortModules S modules) = firsts ++ [.mpi source]) := by
  have hnodup := enabledSources_kinds_nodup S hkinds
  have hsorted := enabledSources_sorted S modules
  generalize enabledSources (sortModules S modules) = sources at hnodup hsorted
  induction sources with
  | nil => exact ⟨[], by simp, .inl rfl⟩
  | cons m sources ih =>
      rw [List.pairwise_cons] at hsorted
      rw [List.map_cons, List.nodup_cons] at hnodup
      by_cases hm : m.initOrder = .first
      · obtain ⟨firsts, hfirsts, hsources⟩ := ih hnodup.2 hsorted.2
        refine ⟨m :: firsts, by simpa [hm] using hfirsts, ?_⟩
        rcases hsources with rfl | ⟨source, rfl⟩
        · exact .inl rfl
        · exact .inr ⟨source, rfl⟩
      · -- nothing comes after `ModuleMPI`
        cases m with
        | mpi source =>
            have hnil : sources = [] := by
              refine List.eq_nil_iff_forall_not_mem.mpr fun m' hm' => ?_
              have hle := hsorted.1 m' hm'
              cases m' with
              | mpi source' => exact hnodup.1 (List.mem_map.mpr ⟨_, hm', rfl⟩)
              | _ => simp [ModuleSource.initOrder, InitOrder.toNat] at hle
            rw [hnil]
            exact ⟨[], by simp, .inr ⟨source, rfl⟩⟩
        | _ => exact absurd rfl hm

end

/-! ### The keys on which the modules put something -/

/-- A key that the FIRST modules put something on is a machine, a component of
the system, a PCI device or an unnamed object. -/
inductive FirstKey : Key → Prop where
  | machine (hostname : String) : FirstKey (machineKey hostname)
  | system (name : String) : FirstKey (systemKey name)
  | bdfid (bdfid : UInt64) : FirstKey (bdfidKey bdfid)
  | unnamed (i : ℕ) : FirstKey (.unnamed i)

lemma FirstKey.notMpi {k : Key} (h : FirstKey k) : k.NotMpi := by
  intro i hi
  cases h with
  | machine hostname => simp at hi
  | system name => exact absurd (Key.name.inj hi).symm (mpiRankId_ne_systemId i name)
  | bdfid bdfid => exact absurd (Key.name.inj hi).symm (mpiRankId_ne_bdfidId i bdfid)
  | unnamed j => cases hi

lemma HwlocApi.mem_hwlocKeys {api : HwlocApi} {s : ℕ} {children : HwlocChildren} {k : Key}
    (h : k ∈ api.hwlocKeys s children) : (∃ b, k = bdfidKey b) ∨ ∃ i, s ≤ i ∧ k = .unnamed i := by
  obtain ⟨⟨obj, j⟩, hmem, rfl⟩ := List.mem_map.mp h
  rw [HwlocApi.hwlocKey]
  split
  · exact .inl ⟨_, rfl⟩
  · exact .inr ⟨j, (List.mem_zipIdx hmem).1, rfl⟩

/-- The operations of hwloc below a vertex: on the vertices of the objects, and edges. -/
lemma HwlocApi.mem_hwlocOps {api : HwlocApi} {s : ℕ} {k : Key} {children : HwlocChildren}
    {op : TopologyOp n} (h : op ∈ api.hwlocOps s k children) :
    (∃ obj i, (obj, i) ∈ children.objects.zipIdx s ∧
      op = .put (api.hwlocKey i obj) (api.contribute obj)) ∨ ∃ a b, op = .child a b := by
  induction children generalizing s k with
  | nil => simp [HwlocApi.hwlocOps] at h
  | cons obj children next ihc ihn =>
      rw [HwlocApi.hwlocOps] at h
      rw [HwlocChildren.objects, List.zipIdx_cons, List.zipIdx_append]
      simp only [List.mem_cons, List.mem_append] at h ⊢
      rcases h with rfl | rfl | h | h
      · exact .inl ⟨obj, s, .inl rfl, rfl⟩
      · exact .inr ⟨_, _, rfl⟩
      · rcases ihc h with ⟨obj', i, hi, rfl⟩ | h
        · exact .inl ⟨obj', i, .inr (.inl hi), rfl⟩
        · exact .inr h
      · rcases ihn h with ⟨obj', i, hi, rfl⟩ | h
        · exact .inl ⟨obj', i, .inr (.inr hi), rfl⟩
        · exact .inr h

/-- The operations of SuperMUC: on machines and on components of the system, and
edges out of components of the system. -/
lemma mem_supermucOps {hostnames : List String} {op : TopologyOp n}
    (h : op ∈ supermucOps hostnames) :
    (∃ hostname, op = .put (machineKey hostname) (contributeSupermuc .node hostname)) ∨
    (∃ name, op = .put (systemKey name) (contributeSupermuc .misc name)) ∨
    ∃ name b, op = .childIfNew (systemKey name) b := by
  obtain ⟨hostname, -, h⟩ := List.mem_flatMap.mp h
  simp only [supermucHostOps, List.mem_cons, List.not_mem_nil, or_false] at h
  rcases h with rfl | rfl | rfl | rfl | rfl | rfl | rfl
  · exact .inl ⟨_, rfl⟩
  all_goals first
    | exact .inr (.inl ⟨_, rfl⟩)
    | exact .inr (.inr ⟨_, _, rfl⟩)

lemma mem_rocmPuts {bdfid : UInt64} {devices : List (RocmDevice × ℕ)} {op : TopologyOp n}
    (h : op ∈ rocmPuts bdfid devices) :
    ∃ b device index, (device, index) ∈ devices ∧ (∀ id, device.pciId = some id → b = id) ∧
      op = .put (bdfidKey b) (contributeRocm device index) := by
  induction devices generalizing bdfid with
  | nil => cases h
  | cons device devices ih =>
      rcases List.mem_cons.mp h with rfl | h
      · refine ⟨_, _, _, List.mem_cons_self, fun id hid => ?_, rfl⟩
        rw [hid, Option.getD_some]
      · obtain ⟨b, device', index, hmem, hid, rfl⟩ := ih h
        exact ⟨b, device', index, List.mem_cons_of_mem _ hmem, hid, rfl⟩

/-- The operations of ROCm: on a PCI device, and interconnects. -/
lemma RocmSource.mem_ops {source : RocmSource} {op : TopologyOp n} (h : op ∈ source.ops) :
    (∃ b device index, (device, index) ∈ source.devices.zipIdx ∧
      (∀ id, device.pciId = some id → b = id) ∧
        op = .put (bdfidKey b) (contributeRocm device index)) ∨
    ∃ b b', op = .peer (bdfidKey b) (bdfidKey b') := by
  rcases List.mem_append.mp h with h | h
  · exact .inl (mem_rocmPuts h)
  · obtain ⟨a, ha, b, hb, rfl⟩ := mem_peerOps h
    have hkey : ∀ k ∈ source.keys.zipIdx, ∃ b, k.1 = bdfidKey b := by
      intro k hk
      obtain ⟨b, -, hb⟩ := List.mem_map.mp (List.fst_mem_of_mem_zipIdx hk)
      exact ⟨b, hb.symm⟩
    obtain ⟨b₁, hb₁⟩ := hkey a ha
    obtain ⟨b₂, hb₂⟩ := hkey b hb
    exact .inr ⟨b₁, b₂, by rw [hb₁, hb₂]⟩

lemma mem_nvmlPuts {devices : List NvmlDevice} {op : TopologyOp n} (h : op ∈ nvmlPuts devices) :
    ∃ b device, op = .put (bdfidKey b) (contributeNvml device) := by
  obtain ⟨device, -, hop⟩ := List.mem_filterMap.mp h
  obtain ⟨k, hk, rfl⟩ := Option.map_eq_some_iff.mp hop
  obtain ⟨pci, -, rfl⟩ := Option.map_eq_some_iff.mp hk
  exact ⟨_, device, rfl⟩

/-- What the modules put something on. -/
lemma ModuleSource.ops_putKey {source : ModuleSource} {s : ℕ} {k : Key}
    (h : k ∈ (source.ops s : List (TopologyOp n)).filterMap TopologyOp.putKey) :
    FirstKey k ∧ ∀ i, k = .unnamed i → s ≤ i ∧ i < s + source.objectCount := by
  obtain ⟨op, hop, hk⟩ := List.mem_filterMap.mp h
  cases source with
  | hwloc source =>
      rw [ModuleSource.ops] at h
      split at h
      · rw [HwlocSource.ops, List.filterMap_cons, HwlocApi.hwlocOps_putKey] at h
        rcases List.mem_cons.mp h with rfl | h
        · exact ⟨.machine _, fun i hi => by cases hi⟩
        · constructor
          · rcases HwlocApi.mem_hwlocKeys h with ⟨b, rfl⟩ | ⟨i, -, rfl⟩
            · exact .bdfid b
            · exact .unnamed i
          · rintro i rfl
            exact HwlocApi.mem_hwlocKeys_unnamed h
      · cases h
  | mpi source => cases hop
  | superMUC source =>
      rw [ModuleSource.ops] at hop
      split at hop
      · obtain ⟨hostname, -, hop⟩ := List.mem_flatMap.mp hop
        simp only [supermucHostOps, List.mem_cons, List.not_mem_nil, or_false] at hop
        rcases hop with rfl | rfl | rfl | rfl | rfl | rfl | rfl <;> cases hk
        · exact ⟨.machine _, fun i hi => by cases hi⟩
        all_goals exact ⟨.system _, fun i hi => by cases hi⟩
      · cases hop
  | rocm source =>
      rcases List.mem_append.mp hop with hop | hop
      · obtain ⟨b, device, index, -, -, rfl⟩ := mem_rocmPuts hop
        cases hk
        exact ⟨.bdfid b, fun i hi => by cases hi⟩
      · obtain ⟨a, -, b, -, rfl⟩ := mem_peerOps hop
        cases hk
  | nvml source =>
      rcases List.mem_append.mp hop with hop | hop
      · obtain ⟨b, device, rfl⟩ := mem_nvmlPuts hop
        cases hk
        exact ⟨.bdfid b, fun i hi => by cases hi⟩
      · obtain ⟨a, -, b, -, rfl⟩ := mem_peerOps hop
        cases hk

lemma sourcesOps_putKey {sources : List ModuleSource} {s : ℕ} {k : Key}
    (h : k ∈ (sourcesOps s sources : List (TopologyOp n)).filterMap TopologyOp.putKey) :
    FirstKey k := by
  induction sources generalizing s with
  | nil => cases h
  | cons source sources ih =>
      rw [sourcesOps, List.filterMap_append] at h
      rcases List.mem_append.mp h with h | h
      · exact (ModuleSource.ops_putKey h).1
      · exact ih h

/-- A run of modules of `init_order::FIRST` returns only if none of them throws. -/
lemma isFirst_of_runSources {S : StdSort VertexT} {sources : List ModuleSource}
    (horder : ∀ source ∈ sources, source.initOrder = .first) {g g' : Graph n}
    (h : runSources S sources g = .ok g') : ∀ source ∈ sources, source.IsFirst := by
  have hreturns : ∀ source ∈ sources, source.initOrder = .first → source.IsFirst := by
    refine foldlM_ok_forall (fun g source g' hstep horder => ?_) h
    obtain ⟨result, hrun, -⟩ := Except.exists_of_map hstep
    cases source with
    | mpi source => cases horder
    | nvml source => exact NvmlSource.pciInfo_of_initGraph hrun
    | _ => exact trivial
  exact fun source hmem => hreturns source hmem (horder source hmem)

/-! ### A run makes the changes of its operations -/

section

variable {φ : Key → Option VertexT} {g : Graph n} {T : Topology n}

lemma Topology.FreshFrom.ops {s : ℕ} (h : T.FreshFrom s) (source : ModuleSource) :
    (T.run (source.ops s)).FreshFrom (s + source.objectCount) := by
  intro i hi
  rw [← Option.not_isSome_iff_eq_none, Topology.run_info_isSome]
  rintro (hsome | hmem)
  · rw [h i (by omega)] at hsome
    exact absurd hsome (by simp)
  · have := (ModuleSource.ops_putKey hmem).2 i rfl
    omega

/-- One module of order FIRST. -/
theorem ModuleSource.initGraph_represents (S : StdSort VertexT) {source : ModuleSource}
    (hfirst : source.IsFirst) (h : Represents φ g T) {s : ℕ} (hs : T.FreshFrom s) :
    ∃ φ' status g', source.initGraph S g = .ok (status, g') ∧
      Represents φ' g' (T.run (source.ops s)) ∧ Extends φ φ' ∧ RootFrom [source] g g' φ' := by
  cases source with
  | hwloc source =>
      by_cases hversion : source.checkHwlocApiVersion = .success
      · obtain ⟨φ', g', hrun, hrep, hext, hroot⟩ := source.initGraph_represents h hs hversion
        refine ⟨φ', .success, g', by rw [ModuleSource.initGraph, hrun], ?_, hext,
          .inl ⟨source, by simp, hversion, hroot⟩⟩
        rw [ModuleSource.ops, if_pos hversion]
        exact hrep
      · refine ⟨φ, source.checkHwlocApiVersion, g, ?_, ?_, .refl φ, .inr ⟨?_, rfl⟩⟩
        · rw [ModuleSource.initGraph, HwlocSource.initGraph, if_pos (by simpa using hversion)]
        · rw [ModuleSource.ops, if_neg hversion]
          exact h
        · intro source' hmem
          rw [ModuleSource.hwloc.inj (List.mem_singleton.mp hmem)]
          exact hversion
  | mpi source => exact absurd hfirst id
  | superMUC source =>
      rw [ModuleSource.initGraph, SupermucSource.initGraph_eq, ModuleSource.ops]
      cases source.check with
      | true =>
          obtain ⟨φ', hadv, -⟩ := makeSupermucGraph_advance h source.hostnames
          exact ⟨φ', .success, _, rfl, hadv.rep, hadv.keeps, .inr ⟨by simp, hadv.root⟩⟩
      | false => exact ⟨φ, .initError, g, rfl, h, .refl φ, .inr ⟨by simp, rfl⟩⟩
  | rocm source =>
      obtain ⟨φ', g', hrun, hadv⟩ := source.initGraph_represents h
      exact ⟨φ', .success, g', by rw [ModuleSource.initGraph, hrun], hadv.rep, hadv.keeps,
        .inr ⟨by simp, hadv.root⟩⟩
  | nvml source =>
      obtain ⟨φ', g', hrun, hadv⟩ := source.initGraph_represents hfirst h
      exact ⟨φ', .success, g', hrun, hadv.rep, hadv.keeps, .inr ⟨by simp, hadv.root⟩⟩

/-- The root vertex after two parts of a run. -/
lemma RootFrom.append {sources sources' : List ModuleSource} {g₁ g₂ : Graph n}
    {φ₁ φ₂ : Key → Option VertexT} (h : RootFrom sources g g₁ φ₁)
    (h' : RootFrom sources' g₁ g₂ φ₂) (hext : Extends φ₁ φ₂) :
    RootFrom (sources ++ sources') g g₂ φ₂ := by
  rcases h' with ⟨source, hmem, hversion, hroot⟩ | ⟨hnone', hroot'⟩
  · exact .inl ⟨source, List.mem_append_right _ hmem, hversion, hroot⟩
  · rcases h with ⟨source, hmem, hversion, hroot⟩ | ⟨hnone, hroot⟩
    · refine .inl ⟨source, List.mem_append_left _ hmem, hversion, ?_⟩
      rw [hroot']
      exact hext _ _ hroot
    · refine .inr ⟨fun source hmem => ?_, hroot'.trans hroot⟩
      rcases List.mem_append.mp hmem with hmem | hmem
      · exact hnone source hmem
      · exact hnone' source hmem

/-- **A run of modules of order FIRST returns and makes the changes of its
operations.** -/
theorem runSources_represents (S : StdSort VertexT) {sources : List ModuleSource}
    (hfirst : ∀ source ∈ sources, source.IsFirst) (h : Represents φ g T) {s : ℕ}
    (hs : T.FreshFrom s) :
    ∃ φ' g', runSources S sources g = .ok g' ∧ Represents φ' g' (T.run (sourcesOps s sources)) ∧
      Extends φ φ' ∧ RootFrom sources g g' φ' := by
  induction sources generalizing φ g T s with
  | nil => exact ⟨φ, g, rfl, h, .refl φ, .inr ⟨by simp, rfl⟩⟩
  | cons source sources ih =>
      obtain ⟨φ₁, status, g₁, hrun₁, hrep₁, hext₁, hroot₁⟩ :=
        source.initGraph_represents S (hfirst source (by simp)) h hs
      obtain ⟨φ₂, g₂, hrun₂, hrep₂, hext₂, hroot₂⟩ :=
        ih (fun source' h' => hfirst source' (List.mem_cons_of_mem _ h')) hrep₁ (hs.ops source)
      refine ⟨φ₂, g₂, ?_, ?_, hext₁.trans hext₂, hroot₁.append hroot₂ hext₂⟩
      · rw [runSources_cons, hrun₁]
        exact hrun₂
      · rw [sourcesOps, Topology.run, runOps_append]
        exact hrep₂

end

end Yloc
