import Yloc.Lib.Forest
import Yloc.PrefixTree
import Yloc.PciUnification
import Yloc.RootVertex

/-!
The hierarchy of SuperMUC in the graph of a whole run.

Whatever the other modules do, the machine of a host hangs below its column, rack and
island (`hostKey`), and nothing else hangs between them.

* `Topology.peer_of_run`, `sourcesOps_peer`: GPU interconnects join PCI devices only.
* `SourcesOk.child_target`: where the CHILD edges of a run lead.
* `SourcesOk.child_of_arc`, `SourcesOk.child_system_iff`: the edges of the hierarchy.
* `hierarchy_agree`: the graphs of different processes have the same hierarchy.
-/

namespace Yloc

variable {n : ℕ}

/-- The topology that a run of the modules and `ModuleMPI` leaves. -/
abbrev Topology.ofModules (n : ℕ) (sources : List ModuleSource) (source : MpiSource)
    (place : Fin source.nbproc → Key) : Topology n :=
  Topology.run (sourcesOps 0 sources ++ source.ops place) Keyed.empty

/-- What is `k` steps above the machine of a host: its column, its rack and its island. -/
def hostKey (hostname : String) : ℕ → Key
  | 0 => machineKey hostname
  | k + 1 => systemKey (cut hostname (9 - 3 * k))

/-! ### GPU interconnects -/

/-- GPU interconnects join PCI devices. -/
lemma sourcesOps_peer {sources : List ModuleSource} {s : ℕ} {a b : Key}
    (h : .peer a b ∈ (sourcesOps s sources : List (TopologyOp n))) :
    (∃ x, a = bdfidKey x) ∧ ∃ y, b = bdfidKey y := by
  obtain ⟨source, -, s', hop⟩ := mem_sourcesOps h
  cases source with
  | hwloc source =>
      rw [ModuleSource.ops] at hop
      split at hop
      · rcases List.mem_cons.mp hop with hop | hop
        · cases hop
        · rcases HwlocApi.mem_hwlocOps hop with ⟨_, _, -, hop⟩ | ⟨_, _, hop⟩ <;> cases hop
      · cases hop
  | mpi source => cases hop
  | superMUC source =>
      rw [ModuleSource.ops] at hop
      split at hop
      · rcases mem_supermucOps hop with ⟨_, hop⟩ | ⟨_, hop⟩ | ⟨_, _, hop⟩ <;> cases hop
      · cases hop
  | rocm source =>
      rcases RocmSource.mem_ops hop with ⟨_, _, _, -, -, hop⟩ | ⟨x, y, hop⟩
      · cases hop
      · cases hop
        exact ⟨⟨x, rfl⟩, y, rfl⟩
  | nvml source =>
      rcases List.mem_append.mp hop with hop | hop
      · obtain ⟨_, _, hop⟩ := mem_nvmlPuts hop
        cases hop
      · obtain ⟨k, hk, k', hk', hop⟩ := mem_peerOps hop
        have hkey : ∀ k ∈ (source.devices.filterMap nvmlKey).zipIdx, ∃ x, k.1 = bdfidKey x := by
          intro k hk
          obtain ⟨device, -, hdevice⟩ := List.mem_filterMap.mp (List.fst_mem_of_mem_zipIdx hk)
          obtain ⟨pci, -, hpci⟩ := Option.map_eq_some_iff.mp hdevice
          exact ⟨_, hpci.symm⟩
        cases hop
        exact ⟨hkey k hk, hkey k' hk'⟩

lemma mpiOps_not_peer {source : MpiSource} {place : Fin source.nbproc → Key} {a b : Key} :
    .peer a b ∉ (source.ops place : List (TopologyOp n)) := by
  intro h
  rw [MpiSource.ops] at h
  split at h
  · obtain ⟨i, -, h⟩ := List.mem_flatMap.mp h
    simp [mpiPuts] at h
  · cases h

/-! ### What is above a machine -/

section

variable {sources : List ModuleSource} {source : MpiSource} {place : Fin source.nbproc → Key}

/-- Where CHILD edges lead: to an object of hwloc, along the hierarchy of the system, or to
an MPI process. -/
lemma SourcesOk.child_target (h : SourcesOk sources) {a b : Key}
    (hab : (Topology.ofModules n sources source place).Child a b) :
    b.IsObject ∨
      (∃ sm, .superMUC sm ∈ sources ∧ ∃ hostname ∈ sm.hostnames, SupermucArc hostname a b) ∨
      ∃ i, b = mpiRankKey i := by
  obtain ⟨-, -, -, -, htarget⟩ := h.childArcs (n := n) 0
  rcases Topology.child_of_run hab with hnone | hop | hop
  · cases hnone
  · rcases List.mem_append.mp hop with hop | hop
    · exact .inl (htarget _ (List.mem_map.mpr ⟨_, TopologyOp.mem_childArcs.mpr hop, rfl⟩))
    · rw [MpiSource.ops] at hop
      split at hop
      · obtain ⟨i, -, -, hb⟩ := mem_mpiRankOps hop
        exact .inr (.inr ⟨i, hb⟩)
      · cases hop
  · rcases List.mem_append.mp hop with hop | hop
    · exact .inr (.inl (sourcesOps_childIfNew hop))
    · rw [MpiSource.ops] at hop
      split at hop
      · exact absurd hop not_childIfNew_mem_mpiRankOps
      · cases hop

/-- What hangs below what in the hierarchy of the system. -/
lemma hostKey_arc (hostname : String) {k : ℕ} (hk : k < 3) :
    SupermucArc hostname (hostKey hostname (k + 1)) (hostKey hostname k) := by
  obtain rfl | rfl | rfl : k = 0 ∨ k = 1 ∨ k = 2 := by omega
  · exact .columnSlot
  · exact .rackColumn
  · exact .islandRack

/-- Nothing in the hierarchy is above an island. -/
lemma not_supermucArc_island {hostname hostname' : String} (hlength : hostname.length = 12)
    (hlength' : hostname'.length = 12) {a : Key} :
    ¬ SupermucArc hostname a (systemKey (cut hostname' 3)) := by
  intro harc
  have hlen : ∀ {k : ℕ}, systemKey (cut hostname k) = systemKey (cut hostname' 3) →
      min k 12 = 3 := fun heq => by
    have := congrArg String.length (systemId_inj.mp (Key.name.inj heq))
    rwa [cut_length, cut_length, hlength, hlength', min_eq_left (by omega : 3 ≤ 12)] at this
  generalize hb : systemKey (cut hostname' 3) = b at harc
  cases harc with
  | islandRack => exact absurd (hlen hb.symm) (by omega)
  | rackColumn => exact absurd (hlen hb.symm) (by omega)
  | columnSlot => exact machineId_ne_systemId _ _ (Key.name.inj hb).symm

/-- Machines and components of the system are not MPI processes or objects. -/
lemma hostKey_name (hostname : String) (k : ℕ) :
    ¬ (hostKey hostname k).IsObject ∧ ∀ i, hostKey hostname k ≠ mpiRankKey i := by
  cases k with
  | zero =>
      refine ⟨fun h => h.ne_name (fun b => machineId_ne_bdfidId hostname b) rfl, fun i hi => ?_⟩
      exact machineId_ne_mpiRankId _ _ (Key.name.inj hi)
  | succ k =>
      refine ⟨fun h => h.ne_name (fun b => systemId_ne_bdfidId _ b) rfl, fun i hi => ?_⟩
      exact mpiRankId_ne_systemId _ _ (Key.name.inj hi).symm

/-- What the parent of a component of the hierarchy is. -/
lemma SourcesOk.parent_hostKey (h : SourcesOk sources) {hostname : String}
    (hlength : hostname.length = 12) {k : ℕ} (hk : k ≤ 3) {a : Key}
    (hab : (Topology.ofModules n sources source place).Child a (hostKey hostname k)) :
    k < 3 ∧ a = hostKey hostname (k + 1) := by
  obtain ⟨hobject, hmpi⟩ := hostKey_name hostname k
  rcases h.child_target hab with hb | ⟨sm, hsm, hostname', hmem, harc⟩ | ⟨i, hi⟩
  · exact absurd hb hobject
  · have hlength' := followsConvention_length (h.hostnames sm hsm hostname' hmem)
    by_cases hk3 : k < 3
    · exact ⟨hk3, harc.parent_unique hlength' hlength (hostKey_arc hostname hk3)⟩
    · obtain rfl : k = 3 := by omega
      exact absurd harc (not_supermucArc_island hlength' hlength)
  · exact absurd hi (hmpi i)

/-- **What is above a machine.** -/
lemma SourcesOk.above_hostKey (h : SourcesOk sources) {hostname : String}
    (hlength : hostname.length = 12) {k i : ℕ} (hk : k ≤ 3) {a : Key}
    (ha : Below (Topology.ofModules n sources source place).Child a i (hostKey hostname k)) :
    k + i ≤ 3 ∧ a = hostKey hostname (k + i) := by
  induction i generalizing k with
  | zero => exact ⟨hk, ha.eq_of_zero⟩
  | succ i ih =>
      cases ha with
      | step ha hstep =>
          obtain ⟨hk3, rfl⟩ := h.parent_hostKey hlength hk hstep
          obtain ⟨hle, heq⟩ := ih hk3 ha
          exact ⟨by omega, by rw [heq, show k + 1 + i = k + (i + 1) by omega]⟩

/-- The edges of the hierarchy are there, when no GPUs are linked. -/
lemma SourcesOk.child_of_arc (h : SourcesOk sources) {sm : SupermucSource}
    (hsm : .superMUC sm ∈ sources) (hcheck : sm.check = true)
    {hostname : String} (hmem : hostname ∈ sm.hostnames) {a b : Key}
    (harc : SupermucArc hostname a b) :
    (Topology.ofModules n sources source place).Child a b := by
  have hlength := followsConvention_length (h.hostnames sm hsm hostname hmem)
  obtain ⟨s, hsubset⟩ := subset_sourcesOps (n := n) hsm 0
  have hop : .childIfNew a b ∈
      (sourcesOps 0 sources ++ source.ops place : List (TopologyOp n)) := by
    refine List.mem_append_left _ (hsubset ?_)
    rw [ModuleSource.ops, if_pos hcheck]
    obtain ⟨op, hop, hends⟩ := List.mem_filterMap.mp (mem_supermucLinks.mpr ⟨hostname, hmem, harc⟩)
    cases op with
    | childIfNew a' b' =>
        obtain ⟨rfl, rfl⟩ := Prod.mk.inj (Option.some.inj hends)
        exact hop
    | _ => cases hends
  obtain ⟨⟨a', b', l⟩, he, hsource, htarget⟩ :=
    Topology.hasArc_iff.mp (Topology.hasArc_of_childIfNew (T := Keyed.empty) hop)
  obtain rfl : a' = a := hsource
  obtain rfl : b' = b := htarget
  obtain ⟨name, hname⟩ := harc.source_system
  rcases Topology.label_of_run he with hnone | rfl | rfl | ⟨-, x, y, hpeer, hends⟩
  · cases hnone
  · exact he
  · -- a PARENT edge would be one of a CHILD edge the other way
    have hback := (Topology.mirrored_run _ .empty).child.step_iff.mpr he
    rcases h.child_target hback with hobject | ⟨sm', hsm', hostname', hmem', harc'⟩ | ⟨i, hi⟩
    · exact absurd hname (hobject.ne_name fun b => systemId_ne_bdfidId name b)
    · have hlength' := followsConvention_length (h.hostnames sm' hsm' hostname' hmem')
      exact absurd (harc.keyLength_lt hlength) (lt_asymm (harc'.keyLength_lt hlength'))
    · exact absurd (Key.name.inj (hi.symm.trans hname)) (mpiRankId_ne_systemId _ _)
  · -- nor are components of the system linked GPUs
    rcases List.mem_append.mp hpeer with hpeer | hpeer
    · obtain ⟨⟨x', rfl⟩, y', rfl⟩ := sourcesOps_peer hpeer
      rw [hname] at hends
      rcases hends with hends | hends <;>
        exact absurd (Key.name.inj hends) (systemId_ne_bdfidId _ _)
    · exact absurd hpeer mpiOps_not_peer

/-- The way up from a machine. -/
lemma SourcesOk.below_hostKey (h : SourcesOk sources) {sm : SupermucSource}
    (hsm : .superMUC sm ∈ sources) (hcheck : sm.check = true)
    {hostname : String} (hmem : hostname ∈ sm.hostnames) {k i : ℕ} (hki : k + i ≤ 3) :
    Below (Topology.ofModules n sources source place).Child (hostKey hostname (k + i)) i
      (hostKey hostname k) := by
  induction i generalizing k with
  | zero => exact .refl
  | succ i ih =>
      have hup := ih (k := k + 1) (by omega)
      rw [show k + 1 + i = k + (i + 1) by omega] at hup
      exact hup.step (h.child_of_arc hsm hcheck hmem (hostKey_arc hostname (by omega)))

/-- The module of SuperMUC is there once. -/
lemma SourcesOk.superMUC_unique (h : SourcesOk sources) {sm sm' : SupermucSource}
    (hsm : .superMUC sm ∈ sources) (hsm' : .superMUC sm' ∈ sources) : sm = sm' :=
  ModuleSource.superMUC.inj (List.inj_on_of_nodup_map h.kinds hsm hsm' rfl)

/-- **The edges of the hierarchy** are those of the host names, whatever the other modules
do. -/
lemma SourcesOk.child_name_iff (h : SourcesOk sources) {sm : SupermucSource}
    (hsm : .superMUC sm ∈ sources) (hcheck : sm.check = true) {a b : Key}
    (hb : (∃ name, b = systemKey name) ∨ ∃ hostname, b = machineKey hostname) :
    (Topology.ofModules n sources source place).Child a b ↔
      ∃ hostname ∈ sm.hostnames, SupermucArc hostname a b := by
  refine ⟨fun hab => ?_, fun ⟨hostname, hmem, harc⟩ => h.child_of_arc hsm hcheck hmem harc⟩
  rcases h.child_target hab with hobject | ⟨sm', hsm', harc⟩ | ⟨i, rfl⟩
  · rcases hb with ⟨name, rfl⟩ | ⟨hostname, rfl⟩
    · exact absurd rfl (hobject.ne_name fun b => systemId_ne_bdfidId name b)
    · exact absurd rfl (hobject.ne_name fun b => machineId_ne_bdfidId hostname b)
  · rwa [h.superMUC_unique hsm hsm']
  · rcases hb with ⟨name, hname⟩ | ⟨hostname, hname⟩
    · exact absurd (Key.name.inj hname) (mpiRankId_ne_systemId _ _)
    · exact absurd (Key.name.inj hname).symm (machineId_ne_mpiRankId _ _)

/-- What is put on components of the system is that of SuperMUC. -/
lemma SourcesOk.put_system (h : SourcesOk sources) {sm : SupermucSource}
    (hsm : .superMUC sm ∈ sources) {name : String} {f : Vertex n → Vertex n}
    (hput : .put (systemKey name) f ∈ (sourcesOps 0 sources ++ source.ops place)) :
    .put (systemKey name) f ∈ supermucOps sm.hostnames := by
  rcases List.mem_append.mp hput with hput | hput
  · obtain ⟨m, hm, s, hop⟩ := mem_sourcesOps hput
    cases m with
    | hwloc hw =>
        rw [ModuleSource.ops] at hop
        split at hop
        · rcases List.mem_cons.mp hop with hop | hop
          · cases hop
          · have hmem := List.mem_filterMap.mpr
              ⟨_, hop, show TopologyOp.putKey (.put (systemKey name) f) = _ from rfl⟩
            rw [HwlocApi.hwlocOps_putKey] at hmem
            exact absurd rfl ((HwlocApi.isObject_of_mem hmem).ne_name fun b =>
              systemId_ne_bdfidId name b)
        · cases hop
    | mpi m => cases hop
    | superMUC sm' =>
        rw [ModuleSource.ops] at hop
        split at hop
        · rwa [h.superMUC_unique hsm hm]
        · cases hop
    | rocm m =>
        rcases RocmSource.mem_ops hop with ⟨b, _, _, -, -, hop⟩ | ⟨_, _, hop⟩
        · exact absurd (Key.name.inj (TopologyOp.put.inj hop).1) (systemId_ne_bdfidId _ _)
        · cases hop
    | nvml m =>
        rcases List.mem_append.mp hop with hop | hop
        · obtain ⟨b, _, hop⟩ := mem_nvmlPuts hop
          exact absurd (Key.name.inj (TopologyOp.put.inj hop).1) (systemId_ne_bdfidId _ _)
        · obtain ⟨_, -, _, -, hop⟩ := mem_peerOps hop
          cases hop
  · rw [MpiSource.ops] at hput
    split at hput
    · obtain ⟨i, -, hput⟩ := List.mem_flatMap.mp hput
      simp only [mpiPuts, List.mem_append, List.mem_cons, TopologyOp.put.injEq, Key.name.injEq,
        reduceCtorEq, List.not_mem_nil, or_false] at hput
      rcases hput with ⟨hkey, -⟩ | ⟨hkey, -⟩ | ⟨hkey, -⟩
      · exact absurd hkey.symm (machineId_ne_systemId _ _)
      · exact absurd hkey.symm (mpiRankId_ne_systemId _ _)
      · exact absurd hkey.symm (mpiRankId_ne_systemId _ _)
    · cases hput

end

/-! ### Three hosts -/

/-- Two hosts of one column, and one of another rack. -/
def wideSystem : SupermucSource where
  initialized := true
  hostname := "i01r01c01s01"
  hostnames := ["i01r01c01s01", "i01r01c01s02", "i01r02c01s01"]

/-- A rank on each of the hosts. -/
def wideRanks : MpiSource where
  initialized := true
  hostname := "i01r01c01s01"
  nbproc := 3
  hostnames := ![("i01r01c01s01" : String), "i01r01c01s02", "i01r02c01s01"]
  cpusets := ![(0b01 : CpuSet), 0b01, 0b01]

lemma wideSystem_sourcesOk : SourcesOk [.superMUC wideSystem, .hwloc smallMachine] where
  first := by simp [ModuleSource.IsFirst]
  kinds := by decide
  bdfids hw hmem := by
    simp only [List.mem_cons, reduceCtorEq, ModuleSource.hwloc.injEq, List.not_mem_nil, or_false,
      false_or] at hmem
    rw [hmem]
    exact smallMachine_distinctBdfids
  hostnames sm hmem := by
    simp only [List.mem_cons, ModuleSource.superMUC.injEq, reduceCtorEq, List.not_mem_nil,
      or_false] at hmem
    rw [hmem]
    decide

/-! ### The graphs of different processes -/

/-- The graph has the islands, racks and columns of the hosts, and the edges between them
and the machines. -/
structure Graph.Hierarchy (g : Graph n) (hostnames : List String) : Prop where
  /-- Which components are there. -/
  bound : ∀ name, (g.lookup (systemId name)).isSome ↔
    ∃ hostname ∈ hostnames, name ∈ [cut hostname 9, cut hostname 6, cut hostname 3]
  /-- What they are. -/
  vertex : ∀ name v, g.lookup (systemId name) = some v →
    (g.vertex v).mType = .misc ∧ (g.vertex v).mDescription = name
  /-- What hangs below what. -/
  edges : ∀ id id' u v, ((∃ name, id' = systemId name) ∨ ∃ hostname, id' = machineId hostname) →
    g.lookup id = some u → g.lookup id' = some v →
      (g.Child u v ↔ ∃ hostname ∈ hostnames, SupermucArc hostname (.name id) (.name id'))

/-- What the module puts on a component of the system. -/
lemma supermucOps_put_system {hostnames : List String} {name : String} {f : Vertex n → Vertex n}
    (h : .put (systemKey name) f ∈ supermucOps hostnames) :
    (∃ hostname ∈ hostnames, name ∈ [cut hostname 9, cut hostname 6, cut hostname 3]) ∧
      f = contributeSupermuc .misc name := by
  obtain ⟨hostname, hmem, hput⟩ := List.mem_flatMap.mp h
  simp only [supermucHostOps, List.mem_cons, TopologyOp.put.injEq, Key.name.injEq, systemId_inj,
    reduceCtorEq, List.not_mem_nil, or_false] at hput
  rcases hput with ⟨hkey, -⟩ | ⟨rfl, rfl⟩ | ⟨rfl, rfl⟩ | ⟨rfl, rfl⟩
  · exact absurd hkey.symm (machineId_ne_systemId _ _)
  all_goals exact ⟨⟨hostname, hmem, by simp⟩, rfl⟩

section

variable {sources : List ModuleSource} {S : StdSort VertexT} {source : MpiSource} {g : Graph n}

/-- **Every whole run leaves the hierarchy of the gathered host names.** -/
lemma SourcesOk.hierarchy (h : SourcesOk sources)
    (hrun : runSources S (sources ++ [.mpi source]) {} = .ok g) {sm : SupermucSource}
    (hsm : .superMUC sm ∈ sources) (hcheck : sm.check = true) : g.Hierarchy sm.hostnames := by
  obtain ⟨φ, φ', g₀, place, -, -, -, hadv, -, -, -⟩ := runMpi_advance h.first hrun
  have hrep : Represents φ' g (Topology.ofModules n sources source place) := hadv.rep
  refine ⟨fun name => ?_, fun name v hv => ?_, fun id id' u v hid' hu hv => ?_⟩
  · have hinfo : (g.lookup (systemId name)).isSome ↔
        ((Topology.ofModules n sources source place).info (systemKey name)).isSome := by
      rw [hrep.ids, ← not_iff_not, Option.not_isSome_iff_eq_none, Option.not_isSome_iff_eq_none,
        hrep.info_eq_none_iff]
    rw [hinfo, Topology.run_info_isSome]
    constructor
    · rintro (hnone | hmem)
      · cases hnone
      · obtain ⟨op, hop, hkey⟩ := List.mem_filterMap.mp hmem
        cases op with
        | put k f =>
            obtain rfl := Option.some.inj hkey
            exact (supermucOps_put_system (h.put_system hsm hop)).1
        | _ => cases hkey
    · rintro ⟨hostname, hmem, hname⟩
      right
      have hput : .put (systemKey name) (contributeSupermuc .misc name) ∈
          (supermucOps sm.hostnames : List (TopologyOp n)) := by
        refine List.mem_flatMap.mpr ⟨hostname, hmem, ?_⟩
        simp only [List.mem_cons, List.not_mem_nil, or_false] at hname
        rcases hname with rfl | rfl | rfl <;> simp [supermucHostOps]
      obtain ⟨s, hsubset⟩ := subset_sourcesOps (n := n) hsm 0
      refine List.mem_filterMap.mpr ⟨.put (systemKey name) (contributeSupermuc .misc name),
        List.mem_append_left _ (hsubset ?_), rfl⟩
      rw [ModuleSource.ops, if_pos hcheck]
      exact hput
  · have hinfo := hrep.info_vertex (k := systemKey name) (by rw [← hrep.ids, hv])
    refine Topology.info_run (P := fun k x => k = systemKey name →
      x.mType = .misc ∧ x.mDescription = name) (fun k f hput x _ hk => ?_)
      (fun k x hnone => by cases hnone) _ _ hinfo rfl
    subst hk
    rw [(supermucOps_put_system (h.put_system hsm hput)).2]
    exact ⟨rfl, rfl⟩
  · rw [hrep.ids] at hu hv
    have hstep := hrep.step_iff (l := .child) hu hv
    refine hstep.trans (h.child_name_iff hsm hcheck ?_)
    rcases hid' with ⟨name, rfl⟩ | ⟨hostname, rfl⟩
    · exact .inl ⟨name, rfl⟩
    · exact .inr ⟨hostname, rfl⟩

/-- **The graphs of different processes have the same hierarchy**: where the processes have
gathered the same host names, the same islands, racks and columns are there, with the same
types and descriptions, and the same of them and of the machines hang below one another,
whatever else the modules have found on the hosts of the processes and in whatever order
they have run. -/
theorem hierarchy_agree {n' : ℕ} {sources' : List ModuleSource} {S' : StdSort VertexT}
    {source' : MpiSource} {g' : Graph n'} (h : SourcesOk sources) (h' : SourcesOk sources')
    (hrun : runSources S (sources ++ [.mpi source]) {} = .ok g)
    (hrun' : runSources S' (sources' ++ [.mpi source']) {} = .ok g') {sm sm' : SupermucSource}
    (hsm : .superMUC sm ∈ sources) (hsm' : .superMUC sm' ∈ sources') (hcheck : sm.check = true)
    (hcheck' : sm'.check = true) (hgathered : sm'.hostnames = sm.hostnames) :
    (∀ name, (g.lookup (systemId name)).isSome = (g'.lookup (systemId name)).isSome) ∧
    (∀ name u u', g.lookup (systemId name) = some u → g'.lookup (systemId name) = some u' →
      (g.vertex u).mType = (g'.vertex u').mType ∧
        (g.vertex u).mDescription = (g'.vertex u').mDescription) ∧
    ∀ id id' u v u' v',
      ((∃ name, id' = systemId name) ∨ ∃ hostname, id' = machineId hostname) →
      g.lookup id = some u → g.lookup id' = some v → g'.lookup id = some u' →
      g'.lookup id' = some v' → (g.Child u v ↔ g'.Child u' v') := by
  have htree := h.hierarchy hrun hsm hcheck
  have htree' := h'.hierarchy hrun' hsm' hcheck'
  rw [hgathered] at htree'
  refine ⟨fun name => ?_, fun name u u' hu hu' => ?_, fun id id' u v u' v' hid' hu hv hu' hv' => ?_⟩
  · rw [Bool.eq_iff_iff, htree.bound, htree'.bound]
  · obtain ⟨htype, hdesc⟩ := htree.vertex name u hu
    obtain ⟨htype', hdesc'⟩ := htree'.vertex name u' hu'
    exact ⟨htype.trans htype'.symm, hdesc.trans hdesc'.symm⟩
  · rw [htree.edges id id' u v hid' hu hv, htree'.edges id id' u' v' hid' hu' hv']

/-- The same system, as another host sees it. -/
def otherSystem : SupermucSource := { wideSystem with hostname := "i01r02c01s01" }

lemma otherSystem_sourcesOk : SourcesOk [.rocm linkedGpus, .superMUC otherSystem] where
  first := by simp [ModuleSource.IsFirst]
  kinds := by decide
  bdfids hw hmem := by simp at hmem
  hostnames sm hmem := by
    simp only [List.mem_cons, ModuleSource.superMUC.injEq, reduceCtorEq, List.not_mem_nil,
      or_false, false_or] at hmem
    rw [hmem]
    decide

theorem hierarchy_agree_wideSystem : ∃ (g : Graph 2) (g' : Graph 4),
    runSources .insertion ([.superMUC wideSystem, .hwloc smallMachine] ++ [.mpi wideRanks]) {} =
      .ok g ∧
    runSources .insertion ([.rocm linkedGpus, .superMUC otherSystem] ++ [.mpi wideRanks]) {} =
      .ok g' ∧
    (∀ name, (g.lookup (systemId name)).isSome = (g'.lookup (systemId name)).isSome) ∧
    (∀ name u u', g.lookup (systemId name) = some u → g'.lookup (systemId name) = some u' →
      (g.vertex u).mType = (g'.vertex u').mType ∧
        (g.vertex u).mDescription = (g'.vertex u').mDescription) ∧
    ∀ id id' u v u' v',
      ((∃ name, id' = systemId name) ∨ ∃ hostname, id' = machineId hostname) →
      g.lookup id = some u → g.lookup id' = some v → g'.lookup id = some u' →
      g'.lookup id' = some v' → (g.Child u v ↔ g'.Child u' v') := by
  obtain ⟨g, hrun, -⟩ := wideSystem_sourcesOk.exists_runMpi (n := 2) .insertion wideRanks
  obtain ⟨g', hrun', -⟩ := otherSystem_sourcesOk.exists_runMpi (n := 4) .insertion wideRanks
  have hsm : ModuleSource.superMUC wideSystem ∈ [.superMUC wideSystem, .hwloc smallMachine] :=
    List.mem_cons_self
  have hsm' : ModuleSource.superMUC otherSystem ∈ [.rocm linkedGpus, .superMUC otherSystem] :=
    List.mem_cons_of_mem _ List.mem_cons_self
  exact ⟨g, g', hrun, hrun', hierarchy_agree wideSystem_sourcesOk otherSystem_sourcesOk hrun hrun'
    hsm hsm' (by decide) (by decide) rfl⟩

end

end Yloc
