import Yloc.ModuleOps

/-!
The shape of the topology: CHILD edges are a forest and PARENT edges mirror them.

The argument is on keys. A CHILD edge of hwloc goes forward in the list of the
objects (`hwlocOps_child`), one of SuperMUC leads from a prefix of a host name to
a longer one (`SupermucArc`), and one of MPI ends at a process, which has no
children. No edge of hwloc ends where one of SuperMUC begins, so the three can
be laid over one another in every order of the modules.

* `SourcesOk`: the modules of a run: at most one of each kind, PCI devices with
  different bdfids, host names that follow the convention.
* `SourcesOk.acyclic`, `SourcesOk.exists_runMpi`: such a run leaves no cycle, so that
  the searches of `ModuleMPI` return.
* `Topology.nodup_targets_run`: when a run gives no vertex two parents.
* `topologyShape_init`: the shape of the graph after `ModuleMPI`.
-/

namespace Yloc

open Relation

variable {n : ℕ}

/-! ### The CHILD edges of hwloc -/

/-- The PCI devices of the tree have pairwise different bdfids. -/
def HwlocSource.DistinctBdfids (source : HwlocSource) : Prop :=
  (source.children.objects.filterMap source.api.bdfid).Nodup

namespace HwlocApi

variable {api : HwlocApi}

/-- Objects have the same key only at the same place or with the same bdfid. -/
lemma hwlocKey_inj {i j : ℕ} {obj obj' : HwlocObj} (h : api.hwlocKey i obj = api.hwlocKey j obj') :
    i = j ∨ ∃ b, api.bdfid obj = some b ∧ api.bdfid obj' = some b := by
  rw [hwlocKey, hwlocKey] at h
  split at h <;> split at h
  · rw [Key.name.injEq, bdfidId_inj] at h
    exact .inr ⟨_, (Option.some_get _).symm, by rw [h, Option.some_get]⟩
  · cases h
  · cases h
  · exact .inl (Key.unnamed.inj h)

/-- Objects at different places with different bdfids have different keys. -/
lemma hwlocKeys_nodup {objects : List HwlocObj} (h : (objects.filterMap api.bdfid).Nodup) (s : ℕ) :
    ((objects.zipIdx s).map fun p => api.hwlocKey p.2 p.1).Nodup := by
  induction objects generalizing s with
  | nil => exact List.nodup_nil
  | cons obj objects ih =>
      have htail : (objects.filterMap api.bdfid).Nodup := by
        rw [List.filterMap_cons] at h
        split at h
        · exact h
        · exact (List.nodup_cons.mp h).2
      rw [List.zipIdx_cons, List.map_cons, List.nodup_cons]
      refine ⟨fun hmem => ?_, ih htail (s + 1)⟩
      obtain ⟨⟨obj', j⟩, hobj', hkey⟩ := List.mem_map.mp hmem
      rcases hwlocKey_inj hkey with hj | ⟨b, hb', hb⟩
      · have := (List.mem_zipIdx hobj').1
        omega
      · rw [List.filterMap_cons, hb] at h
        exact (List.nodup_cons.mp h).1
          (List.mem_filterMap.mpr ⟨obj', List.fst_mem_of_mem_zipIdx hobj', hb'⟩)

/-- A CHILD edge leads from an object to a later one. -/
lemma hwlocOps_child {s : ℕ} {k a b : Key} {children : HwlocChildren}
    (h : .child a b ∈ (api.hwlocOps s k children : List (TopologyOp n))) :
    [a, b].Sublist (k :: api.hwlocKeys s children) := by
  induction children generalizing s k with
  | nil => cases h
  | cons obj children next ihc ihn =>
      rw [hwlocKeys_cons]
      simp only [hwlocOps, List.mem_cons, List.mem_append, reduceCtorEq, false_or,
        TopologyOp.child.injEq] at h
      rcases h with ⟨rfl, rfl⟩ | h | h
      · exact ((List.nil_sublist _).cons_cons _).cons_cons _
      · exact ((ihc h).trans ((List.sublist_append_left _ _).cons_cons _)).cons _
      · refine (ihn h).trans (List.Sublist.cons_cons _ ?_)
        exact (List.sublist_append_right _ _).cons _

/-- Every object is the target of one edge. -/
lemma hwlocOps_childArcs (s : ℕ) (k : Key) (children : HwlocChildren) :
    ((api.hwlocOps s k children : List (TopologyOp n)).filterMap TopologyOp.childArc).map Prod.snd
      = api.hwlocKeys s children := by
  induction children generalizing s k with
  | nil => rfl
  | cons obj children next ihc ihn =>
      rw [hwlocOps, hwlocKeys_cons]
      simp only [List.filterMap_cons, TopologyOp.childArc, List.filterMap_append, List.map_cons,
        List.map_append, ihc, ihn]

end HwlocApi

namespace HwlocSource

variable {source : HwlocSource}

/-- The keys of the machine and the objects. -/
def allKeys (source : HwlocSource) (s : ℕ) : List Key :=
  machineKey source.hostname :: source.api.hwlocKeys s source.children

lemma allKeys_nodup (h : source.DistinctBdfids) (s : ℕ) : (source.allKeys s).Nodup := by
  refine List.nodup_cons.mpr ⟨fun hmem => ?_, HwlocApi.hwlocKeys_nodup h s⟩
  rcases HwlocApi.mem_hwlocKeys hmem with ⟨b, hb⟩ | ⟨i, -, hi⟩
  · exact machineId_ne_bdfidId _ _ (Key.name.inj hb)
  · cases hi

lemma ops_child {s : ℕ} {a b : Key} (h : .child a b ∈ (source.ops s : List (TopologyOp n))) :
    [a, b].Sublist (source.allKeys s) := by
  rcases List.mem_cons.mp h with h | h
  · cases h
  · exact HwlocApi.hwlocOps_child h

end HwlocSource

/-! ### The CHILD edges of SuperMUC -/

@[simp] lemma cut_length (s : String) (k : ℕ) : (cut s k).length = min k s.length := by
  rw [cut, String.length_ofList, List.length_take, String.length_toList]

lemma cut_cut (s : String) {j k : ℕ} (h : j ≤ k) : cut (cut s k) j = cut s j := by
  rw [cut, cut, cut, String.toList_ofList, List.take_take, min_eq_left h]

/-- The edges that the module adds for a host. -/
inductive SupermucArc (hostname : String) : Key → Key → Prop where
  | islandRack : SupermucArc hostname (systemKey (cut hostname 3)) (systemKey (cut hostname 6))
  | rackColumn : SupermucArc hostname (systemKey (cut hostname 6)) (systemKey (cut hostname 9))
  | columnSlot : SupermucArc hostname (systemKey (cut hostname 9)) (machineKey hostname)

lemma supermucOps_childIfNew {hostnames : List String} {a b : Key}
    (h : .childIfNew a b ∈ (supermucOps hostnames : List (TopologyOp n))) :
    ∃ hostname ∈ hostnames, SupermucArc hostname a b := by
  obtain ⟨hostname, hmem, h⟩ := List.mem_flatMap.mp h
  simp only [supermucHostOps, List.mem_cons, reduceCtorEq, false_or, List.not_mem_nil, or_false,
    TopologyOp.childIfNew.injEq] at h
  refine ⟨hostname, hmem, ?_⟩
  rcases h with ⟨rfl, rfl⟩ | ⟨rfl, rfl⟩ | ⟨rfl, rfl⟩
  · exact .islandRack
  · exact .rackColumn
  · exact .columnSlot

/-- The module adds no edge without the test. -/
lemma supermucOps_not_child {hostnames : List String} {a b : Key} :
    .child a b ∉ (supermucOps hostnames : List (TopologyOp n)) := by
  intro h
  obtain ⟨hostname, -, h⟩ := List.mem_flatMap.mp h
  simp [supermucHostOps] at h

lemma followsConvention_length {hostname : String} (h : followsConvention hostname = true) :
    hostname.length = 12 := by
  rw [followsConvention, Bool.and_eq_true, beq_iff_eq] at h
  exact h.1

namespace SupermucArc

variable {hostname hostname' : String} {a a' b : Key}

/-- Edges lead from components of the system. -/
lemma source_system (h : SupermucArc hostname a b) : ∃ name, a = systemKey name := by
  cases h <;> exact ⟨_, rfl⟩

lemma target_firstKey (h : SupermucArc hostname a b) :
    (∃ name, b = systemKey name) ∨ b = machineKey hostname := by
  cases h
  · exact .inl ⟨_, rfl⟩
  · exact .inl ⟨_, rfl⟩
  · exact .inr rfl

/-- The name of a component determines where it belongs. -/
lemma parent_unique (hlength : hostname.length = 12) (hlength' : hostname'.length = 12)
    (h : SupermucArc hostname a b) (h' : SupermucArc hostname' a' b) : a = a' := by
  have hcut : ∀ {j k : ℕ}, systemKey (cut hostname j) = systemKey (cut hostname' k) →
      cut hostname j = cut hostname' k := fun heq => systemId_inj.mp (Key.name.inj heq)
  have hlen : ∀ {j k : ℕ}, systemKey (cut hostname j) = systemKey (cut hostname' k) →
      min j 12 = min k 12 := fun heq => by
    have := congrArg String.length (hcut heq)
    rwa [cut_length, cut_length, hlength, hlength'] at this
  generalize hb : b = b' at h'
  cases h <;> cases h'
  · rw [← cut_cut hostname (show 3 ≤ 6 by omega), hcut hb, cut_cut _ (by omega)]
  · exact absurd (hlen hb) (by omega)
  · exact absurd (Key.name.inj hb).symm (machineId_ne_systemId _ _)
  · exact absurd (hlen hb) (by omega)
  · rw [← cut_cut hostname (show 6 ≤ 9 by omega), hcut hb, cut_cut _ (by omega)]
  · exact absurd (Key.name.inj hb).symm (machineId_ne_systemId _ _)
  · exact absurd (Key.name.inj hb) (machineId_ne_systemId _ _)
  · exact absurd (Key.name.inj hb) (machineId_ne_systemId _ _)
  · rw [machineId_inj.mp (Key.name.inj hb)]

/-- The length of an identifier, zero for what has none. -/
def keyLength : Key → ℕ
  | .name id => id.length
  | .unnamed _ => 0

/-- Edges lead to longer identifiers. -/
lemma keyLength_lt (hlength : hostname.length = 12) (h : SupermucArc hostname a b) :
    keyLength a < keyLength b := by
  have hsystem : ∀ k : ℕ, keyLength (systemKey (cut hostname k)) = 7 + min k 12 := fun k => by
    rw [keyLength, systemId, String.length_append, cut_length, hlength]
    rfl
  have hmachine : keyLength (machineKey hostname) = 20 := by
    rw [keyLength, machineId, String.length_append, hlength]
    rfl
  cases h
  · rw [hsystem, hsystem]; omega
  · rw [hsystem, hsystem]; omega
  · rw [hsystem, hmachine]; omega

end SupermucArc

/-! ### The CHILD edges of a run of modules -/

namespace ModuleSource

variable {source : ModuleSource} {s : ℕ} {a b : Key}

/-- Only hwloc adds edges without a test. -/
lemma ops_childArcs (hkind : source.kind ≠ .hwloc) :
    (source.ops s : List (TopologyOp n)).filterMap TopologyOp.childArc = [] := by
  rw [List.filterMap_eq_nil_iff]
  intro op hop
  cases source with
  | hwloc source => exact absurd rfl hkind
  | mpi source => cases hop
  | superMUC source =>
      rw [ops] at hop
      split at hop
      · cases op with
        | child a b => exact absurd hop supermucOps_not_child
        | _ => rfl
      · cases hop
  | rocm source =>
      rcases List.mem_append.mp hop with hop | hop
      · obtain ⟨b, device, index, -, -, rfl⟩ := mem_rocmPuts hop
        rfl
      · obtain ⟨a, -, b, -, rfl⟩ := mem_peerOps hop
        rfl
  | nvml source =>
      rcases List.mem_append.mp hop with hop | hop
      · obtain ⟨b, device, rfl⟩ := mem_nvmlPuts hop
        rfl
      · obtain ⟨a, -, b, -, rfl⟩ := mem_peerOps hop
        rfl

/-- Only SuperMUC adds edges with a test. -/
lemma ops_childIfNew (h : .childIfNew a b ∈ (source.ops s : List (TopologyOp n))) :
    ∃ sm, source = .superMUC sm ∧ ∃ hostname ∈ sm.hostnames, SupermucArc hostname a b := by
  cases source with
  | hwloc source =>
      rw [ops] at h
      split at h
      · have hnone : ∀ (s : ℕ) (k : Key) (children : HwlocChildren),
            .childIfNew a b ∉ (source.api.hwlocOps s k children : List (TopologyOp n)) := by
          intro s k children
          induction children generalizing s k with
          | nil => simp [HwlocApi.hwlocOps]
          | cons obj children next ihc ihn => simp [HwlocApi.hwlocOps, ihc, ihn]
        rcases List.mem_cons.mp h with h | h
        · cases h
        · exact absurd h (hnone _ _ _)
      · cases h
  | mpi source => cases h
  | superMUC source =>
      rw [ops] at h
      split at h
      · exact ⟨source, rfl, supermucOps_childIfNew h⟩
      · cases h
  | rocm source =>
      rcases List.mem_append.mp h with h | h
      · obtain ⟨b, device, index, -, -, hop⟩ := mem_rocmPuts h
        cases hop
      · obtain ⟨a, -, b, -, hop⟩ := mem_peerOps h
        cases hop
  | nvml source =>
      rcases List.mem_append.mp h with h | h
      · obtain ⟨b, device, hop⟩ := mem_nvmlPuts h
        cases hop
      · obtain ⟨a, -, b, -, hop⟩ := mem_peerOps h
        cases hop

end ModuleSource

lemma sourcesOps_childIfNew {sources : List ModuleSource} {s : ℕ} {a b : Key}
    (h : .childIfNew a b ∈ (sourcesOps s sources : List (TopologyOp n))) :
    ∃ sm, .superMUC sm ∈ sources ∧ ∃ hostname ∈ sm.hostnames, SupermucArc hostname a b := by
  induction sources generalizing s with
  | nil => cases h
  | cons source sources ih =>
      rcases List.mem_append.mp h with h | h
      · obtain ⟨sm, rfl, harc⟩ := ModuleSource.ops_childIfNew h
        exact ⟨sm, by simp, harc⟩
      · obtain ⟨sm, hmem, harc⟩ := ih h
        exact ⟨sm, List.mem_cons_of_mem _ hmem, harc⟩

/-- Without hwloc there are no edges added without a test. -/
lemma sourcesOps_childArcs_nil {sources : List ModuleSource}
    (h : .hwloc ∉ sources.map ModuleSource.kind) (s : ℕ) :
    (sourcesOps s sources : List (TopologyOp n)).filterMap TopologyOp.childArc = [] := by
  induction sources generalizing s with
  | nil => rfl
  | cons source sources ih =>
      rw [List.map_cons, List.mem_cons, not_or] at h
      rw [sourcesOps, List.filterMap_append, ih h.2, ModuleSource.ops_childArcs (Ne.symm h.1),
        List.append_nil]

/-- With at most one module of each kind, the edges added without a test are
those of one run of hwloc. -/
lemma sourcesOps_childArcs {sources : List ModuleSource}
    (h : (sources.map ModuleSource.kind).Nodup) (s : ℕ) :
    (sourcesOps s sources : List (TopologyOp n)).filterMap TopologyOp.childArc = [] ∨
      ∃ hw, .hwloc hw ∈ sources ∧
        (sourcesOps s sources : List (TopologyOp n)).filterMap TopologyOp.childArc =
          (hw.ops s : List (TopologyOp n)).filterMap TopologyOp.childArc := by
  induction sources with
  | nil => exact .inl rfl
  | cons source sources ih =>
      rw [List.map_cons, List.nodup_cons] at h
      by_cases hkind : source.kind = .hwloc
      · rw [hkind] at h
        rw [sourcesOps, List.filterMap_append, sourcesOps_childArcs_nil h.1, List.append_nil]
        cases source with
        | hwloc hw =>
            rw [ModuleSource.ops]
            split
            · exact .inr ⟨hw, by simp, rfl⟩
            · exact .inl rfl
        | _ => cases hkind
      · have hcount : source.objectCount = 0 := by
          cases source with
          | hwloc hw => exact absurd rfl hkind
          | _ => rfl
        rw [sourcesOps, List.filterMap_append, ModuleSource.ops_childArcs hkind, hcount,
          Nat.add_zero, List.nil_append]
        rcases ih h.2 with hnil | ⟨hw, hmem, harcs⟩
        · exact .inl hnil
        · exact .inr ⟨hw, List.mem_cons_of_mem _ hmem, harcs⟩

/-! ### The shape -/

/-- Modules of order FIRST, at most one of each kind, with PCI devices of
different bdfids and host names that follow the convention. -/
structure SourcesOk (sources : List ModuleSource) : Prop where
  first : ∀ source ∈ sources, source.IsFirst
  kinds : (sources.map ModuleSource.kind).Nodup
  bdfids : ∀ hw, .hwloc hw ∈ sources → hw.DistinctBdfids
  hostnames : ∀ sm, .superMUC sm ∈ sources → ∀ hostname ∈ sm.hostnames,
    followsConvention hostname = true

namespace SourcesOk

variable {sources : List ModuleSource}

lemma childIfNew (h : SourcesOk sources) {s : ℕ} {a b : Key}
    (hop : .childIfNew a b ∈ (sourcesOps s sources : List (TopologyOp n))) :
    ∃ hostname : String, hostname.length = 12 ∧ SupermucArc hostname a b := by
  obtain ⟨sm, hsm, hostname, hmem, harc⟩ := sourcesOps_childIfNew hop
  exact ⟨hostname, followsConvention_length (h.hostnames sm hsm hostname hmem), harc⟩

/-- The keys of hwloc that edges lead to: different, and neither machines nor
components of the system. -/
lemma childArcs (h : SourcesOk sources) (s : ℕ) :
    ∃ l : List Key, l.Nodup ∧
      (∀ a b, .child a b ∈ (sourcesOps s sources : List (TopologyOp n)) → [a, b].Sublist l) ∧
      (((sourcesOps s sources : List (TopologyOp n)).filterMap TopologyOp.childArc).map
        Prod.snd).Nodup ∧
      ∀ b ∈ ((sourcesOps s sources : List (TopologyOp n)).filterMap TopologyOp.childArc).map
        Prod.snd, (∃ bdfid, b = bdfidKey bdfid) ∨ ∃ i, b = .unnamed i := by
  rcases sourcesOps_childArcs (n := n) h.kinds s with hnil | ⟨hw, hmem, harcs⟩
  · refine ⟨[], List.nodup_nil, fun a b hop => ?_, by rw [hnil]; exact List.nodup_nil, ?_⟩
    · rw [← TopologyOp.mem_childArcs, hnil] at hop
      cases hop
    · rw [hnil]
      simp
  · have hops : (hw.ops s : List (TopologyOp n)).filterMap TopologyOp.childArc =
        (hw.api.hwlocOps s (machineKey hw.hostname) hw.children : List (TopologyOp n)).filterMap
          TopologyOp.childArc := rfl
    have hnodup := HwlocSource.allKeys_nodup (h.bdfids hw hmem) s
    refine ⟨hw.allKeys s, hnodup, fun a b hop => ?_, ?_, fun b hb => ?_⟩
    · rw [← TopologyOp.mem_childArcs, harcs, TopologyOp.mem_childArcs] at hop
      exact HwlocSource.ops_child hop
    · rw [harcs, hops, HwlocApi.hwlocOps_childArcs]
      exact (List.nodup_cons.mp hnodup).2
    · rw [harcs, hops, HwlocApi.hwlocOps_childArcs] at hb
      rcases HwlocApi.mem_hwlocKeys hb with hbdfid | ⟨i, -, hi⟩
      · exact .inl hbdfid
      · exact .inr ⟨i, hi⟩

/-- **The CHILD edges of the modules make no cycle**, in whatever order the
modules run. -/
theorem acyclic (h : SourcesOk sources) (s : ℕ) :
    Acyclic (Topology.run (sourcesOps s sources) (Keyed.empty : Topology n)).Child := by
  obtain ⟨l, hl, hforward, -, htarget⟩ := h.childArcs (n := n) s
  have hsystem : Acyclic fun a b =>
      ∃ hostname : String, hostname.length = 12 ∧ SupermucArc hostname a b :=
    acyclic_of_lt SupermucArc.keyLength fun a b ⟨_, hlength, harc⟩ => harc.keyLength_lt hlength
  have hhwloc : Acyclic fun a b => .child a b ∈ (sourcesOps s sources : List (TopologyOp n)) :=
    acyclic_of_sublist hl hforward
  refine (hsystem.sup hhwloc fun a b c hab ⟨_, _, hbc⟩ => ?_).mono fun a b hab => ?_
  · -- hwloc leads to no component of the system
    obtain ⟨name, rfl⟩ := hbc.source_system
    rcases htarget _ (List.mem_map.mpr ⟨_, TopologyOp.mem_childArcs.mpr hab, rfl⟩) with
      ⟨bdfid, hb⟩ | ⟨i, hi⟩
    · exact systemId_ne_bdfidId _ _ (Key.name.inj hb)
    · cases hi
  · rcases Topology.child_of_run hab with hnone | hop | hop
    · cases hnone
    · exact .inr hop
    · exact .inl (h.childIfNew hop)

end SourcesOk

/-- The modules of order FIRST put nothing on an MPI process. -/
lemma sourcesOps_info_mpi (sources : List ModuleSource) (s i : ℕ) :
    (Topology.run (sourcesOps s sources) (Keyed.empty : Topology n)).info (mpiRankKey i) =
      none := by
  rw [← Option.not_isSome_iff_eq_none, Topology.run_info_isSome]
  rintro (h | h)
  · cases h
  · exact (sourcesOps_putKey h).notMpi i rfl

/-- **The modules of order FIRST leave a graph on which `ModuleMPI` can run.** -/
theorem mpiOk_sources {sources : List ModuleSource} {s : ℕ} {φ : Key → Option VertexT}
    {g : Graph n} (hrep : Represents φ g (Topology.run (sourcesOps s sources) Keyed.empty))
    (hroot : RootFrom sources ({} : Graph n) g φ) :
    MpiOk φ g (Topology.run (sourcesOps s sources) Keyed.empty) where
  rep := hrep
  leaves := by
    refine ⟨fun a b hab i hi => ?_, fun i x hx => ?_⟩
    · obtain ⟨⟨v, hv⟩, -⟩ := hrep.ends _ hab
      obtain ⟨x, -, hx⟩ := hrep.info_some hv
      have hnone := sourcesOps_info_mpi (n := n) sources s i
      rw [show a = mpiRankKey i from hi, hnone] at hx
      cases hx
    · rw [sourcesOps_info_mpi] at hx
      cases hx
  root := by
    rcases hroot with ⟨source, -, -, hroot⟩ | ⟨-, hroot⟩
    · exact .inl (hrep.lt _ _ hroot)
    · exact .inr hroot
  root_notMpi i hi := by
    rw [hrep.info_eq_none_iff.mp (sourcesOps_info_mpi sources s i)] at hi
    cases hi

/-- CHILD and PARENT edges mirror one another, every vertex has at most one
parent, and the CHILD edges make no cycle. -/
structure Graph.TopologyShape (g : Graph n) : Prop where
  mirrored : Arc.Mirrored .child .parent g.edges
  parent : (Arc.targets .child g.edges).Nodup
  acyclic : Acyclic g.Child

section

variable {sources : List ModuleSource}

/-- The edges to the MPI processes. -/
lemma mpiOps_childArcs (source : MpiSource) (place : Fin source.nbproc → Key) :
    ((mpiOps source place : List (TopologyOp n)).filterMap TopologyOp.childArc).map Prod.snd =
      (List.finRange source.nbproc).map fun i : Fin source.nbproc => mpiRankKey i := by
  rw [mpiOps, mpiRankOps]
  induction List.finRange source.nbproc with
  | nil => rfl
  | cons i ranks ih =>
      rw [List.flatMap_cons, List.filterMap_append, List.map_append, ih]
      rfl

/-- No vertex gets two parents. -/
theorem SourcesOk.nodup_targets (h : SourcesOk sources) (s : ℕ) (source : MpiSource)
    (place : Fin source.nbproc → Key) :
    (Arc.targets .child (Topology.run (sourcesOps s sources ++ source.ops place)
      (Keyed.empty : Topology n)).arcs).Nodup := by
  obtain ⟨l, -, -, hnodup, htarget⟩ := h.childArcs (n := n) s
  -- the edges to MPI processes
  have hranks : ∃ ranks : List (Fin source.nbproc), ranks.Nodup ∧
      ((source.ops place : List (TopologyOp n)).filterMap TopologyOp.childArc).map Prod.snd =
        ranks.map fun i : Fin source.nbproc => mpiRankKey i := by
    rw [MpiSource.ops]
    split
    · exact ⟨_, List.nodup_finRange _, mpiOps_childArcs source place⟩
    · exact ⟨[], List.nodup_nil, rfl⟩
  obtain ⟨ranks, hranks_nodup, hranks⟩ := hranks
  have hguarded : ∀ {a b : Key},
      .childIfNew a b ∈ (sourcesOps s sources ++ source.ops place : List (TopologyOp n)) →
      ∃ hostname : String, hostname.length = 12 ∧ SupermucArc hostname a b := by
    intro a b hop
    rcases List.mem_append.mp hop with hop | hop
    · exact h.childIfNew hop
    · rw [MpiSource.ops] at hop
      split at hop
      · exact absurd hop not_childIfNew_mem_mpiRankOps
      · cases hop
  refine Topology.nodup_targets_run ?_ (fun a a' b hop hop' => ?_) fun a b hop hb => ?_
  · rw [List.filterMap_append, List.map_append, hranks]
    refine hnodup.append (hranks_nodup.map fun i j hij => ?_) fun b hb hb' => ?_
    · rw [Key.name.injEq, mpiRankId_inj] at hij
      exact Fin.ext hij
    · obtain ⟨i, -, rfl⟩ := List.mem_map.mp hb'
      rcases htarget _ hb with ⟨bdfid, hb⟩ | ⟨j, hj⟩
      · exact mpiRankId_ne_bdfidId _ _ (Key.name.inj hb)
      · cases hj
  · obtain ⟨hostname, hlength, harc⟩ := hguarded hop
    obtain ⟨hostname', hlength', harc'⟩ := hguarded hop'
    exact harc.parent_unique hlength hlength' harc'
  · obtain ⟨hostname, -, harc⟩ := hguarded hop
    rw [List.filterMap_append, List.map_append, hranks, List.mem_append] at hb
    rcases harc.target_firstKey with ⟨name, rfl⟩ | rfl
    · rcases hb with hb | hb
      · rcases htarget _ hb with ⟨bdfid, hb⟩ | ⟨j, hj⟩
        · exact systemId_ne_bdfidId _ _ (Key.name.inj hb)
        · cases hj
      · obtain ⟨i, -, hi⟩ := List.mem_map.mp hb
        exact mpiRankId_ne_systemId _ _ (Key.name.inj hi)
    · rcases hb with hb | hb
      · rcases htarget _ hb with ⟨bdfid, hb⟩ | ⟨j, hj⟩
        · exact machineId_ne_bdfidId _ _ (Key.name.inj hb)
        · cases hj
      · obtain ⟨i, -, hi⟩ := List.mem_map.mp hb
        exact machineId_ne_mpiRankId _ _ (Key.name.inj hi).symm

/-- What `ModuleMPI` has returned at the end of a run. -/
lemma initGraph_of_runMpi {S : StdSort VertexT} {source : MpiSource} {g₀ g g' : Graph n}
    (hrun : runSources S (sources ++ [.mpi source]) g₀ = .ok g')
    (hsources : runSources S sources g₀ = .ok g) :
    ∃ status, source.initGraph S g = .ok (status, g') := by
  rw [runSources_append, hsources] at hrun
  change runSources S [.mpi source] g = .ok g' at hrun
  obtain ⟨result, hround, hnil⟩ := Except.exists_of_bind hrun
  obtain ⟨⟨status, g₁⟩, hmpi, rfl⟩ := Except.exists_of_map hround
  obtain rfl : g₁ = g' := Except.ok.inj hnil
  exact ⟨status, hmpi⟩

/-- A run of modules of order FIRST and `ModuleMPI` on an empty graph that
returns makes the changes of the operations. -/
theorem runMpi_advance (hfirst : ∀ source ∈ sources, source.IsFirst) {S : StdSort VertexT}
    {source : MpiSource} {g' : Graph n}
    (hrun : runSources S (sources ++ [.mpi source]) ({} : Graph n) = .ok g') :
    ∃ φ φ' g place, Represents φ g (Topology.run (sourcesOps 0 sources) Keyed.empty) ∧
      runSources S sources ({} : Graph n) = .ok g ∧ RootFrom sources ({} : Graph n) g φ ∧
      Advance φ g φ' g' (Topology.run (sourcesOps 0 sources ++ source.ops place) Keyed.empty) ∧
      MpiOk φ' g' (Topology.run (sourcesOps 0 sources ++ source.ops place) Keyed.empty) ∧
      (source.initialized = true → ∀ i ∈ (List.finRange source.nbproc).head?,
        φ' (machineKey (source.hostnames i)) =
          some (g.addVertexId (machineId (source.hostnames i))).1) ∧
      (source.initialized = true → ∀ i, ∃ r, φ' r = some g'.mRootVertex ∧
        Placement source (Topology.run (sourcesOps 0 sources ++ source.ops place)
          (Keyed.empty : Topology n)) r i (place i)) := by
  obtain ⟨φ, g, hsources, hrep, -, hroot⟩ :=
    runSources_represents S hfirst (Represents.empty (n := n)) (s := 0) fun i _ => rfl
  obtain ⟨status, hmpi⟩ := initGraph_of_runMpi hrun hsources
  obtain ⟨φ', place, hadv, hok, hvd, hplace⟩ :=
    MpiSource.initGraph_advance (mpiOk_sources hrep hroot) hmpi
  rw [Topology.run, ← runOps_append] at hadv hok hplace
  exact ⟨φ, φ', g, place, hrep, hsources, hroot, hadv, hok, hvd, hplace⟩

/-- With modules that are in order the run returns, and CHILD edges make no cycle. -/
theorem SourcesOk.exists_runMpi (h : SourcesOk sources) (S : StdSort VertexT)
    (source : MpiSource) :
    ∃ g : Graph n, runSources S (sources ++ [.mpi source]) {} = .ok g ∧ Acyclic g.Child := by
  obtain ⟨φ, g, hsources, hrep, -, hroot⟩ :=
    runSources_represents S h.first (Represents.empty (n := n)) (s := 0) fun i _ => rfl
  obtain ⟨status, g', hmpi, hacyclic⟩ :=
    MpiSource.exists_initGraph (mpiOk_sources hrep hroot) (h.acyclic 0) S source
  refine ⟨g', ?_, hacyclic⟩
  rw [runSources_append, hsources]
  change ((source.initGraph S g).map Prod.snd).bind (runSources S []) = .ok g'
  rw [hmpi]
  rfl

/-- A run of the modules and `ModuleMPI` leaves a graph of the shape. -/
theorem SourcesOk.topologyShape (h : SourcesOk sources) (S : StdSort VertexT)
    (source : MpiSource) :
    ∃ g : Graph n, runSources S (sources ++ [.mpi source]) {} = .ok g ∧ g.TopologyShape := by
  obtain ⟨g, hrun, hacyclic⟩ := h.exists_runMpi (n := n) S source
  obtain ⟨φ, φ', g₀, place, -, -, -, hadv, -, -, -⟩ := runMpi_advance h.first hrun
  exact ⟨g, hrun, hadv.rep.mirrored (Topology.mirrored_run _ .empty).child,
    hadv.rep.nodup_targets (h.nodup_targets 0 source place), hacyclic⟩

end

/-- **The shape of the topology**: after ModuleHwloc, ModuleSuperMUC where it
takes part, in either order, and ModuleMPI. -/
theorem topologyShape_init (S : StdSort VertexT) {hw : HwlocSource} (hbdfids : hw.DistinctBdfids)
    (sm : SupermucSource)
    (hhostnames : ∀ hostname ∈ sm.hostnames, followsConvention hostname = true)
    (source : MpiSource) {sources : List ModuleSource}
    (hsources : sources.Perm [.hwloc hw] ∨ sources.Perm [.hwloc hw, .superMUC sm]) :
    ∃ g : Graph n, runSources S (sources ++ [.mpi source]) {} = .ok g ∧ g.TopologyShape := by
  have hmem : ∀ m ∈ sources, m = .hwloc hw ∨ m = .superMUC sm := by
    intro m hm
    rcases hsources with h | h
    · exact .inl (List.mem_singleton.mp (h.mem_iff.mp hm))
    · simpa using h.mem_iff.mp hm
  refine SourcesOk.topologyShape ⟨fun m hm => ?_, ?_, fun hw' hm => ?_, fun sm' hm => ?_⟩ S source
  · rcases hmem m hm with rfl | rfl <;> exact trivial
  · rcases hsources with h | h
    · exact ((h.map ModuleSource.kind).nodup_iff).mpr (by simp [ModuleSource.kind])
    · exact ((h.map ModuleSource.kind).nodup_iff).mpr (by simp [ModuleSource.kind])
  · rcases hmem _ hm with h | h
    · cases h
      exact hbdfids
    · cases h
  · rcases hmem _ hm with h | h
    · cases h
    · cases h
      exact hhostnames

/-- A machine of one package with two cores and a PCI device. -/
def smallMachine : HwlocSource where
  api := .standard
  compiledVersion := 0x20400
  libraryVersion := 0x20900
  topologyInit := 0
  topologyLoad := 0
  root := { addr := 0, type := .machine, cpuset := some {0, 1} }
  root_type := rfl
  children :=
    .cons { addr := 1, type := .package, cpuset := some {0, 1} }
      (.cons { addr := 2, type := .core, cpuset := some {0} } .nil
        (.cons { addr := 3, type := .core, cpuset := some {1} } .nil .nil))
      (.cons { addr := 4, type := .pciDevice, attr := some { pcidev := { bus := 3 } } } .nil .nil)
  hostname := "i01r01c01s01"

/-- Two hosts of one column. -/
def smallSystem : SupermucSource where
  initialized := true
  hostname := "i01r01c01s01"
  hostnames := ["i01r01c01s01", "i01r01c01s02"]

/-- A rank on each of the two hosts. -/
def twoRanks : MpiSource where
  initialized := true
  hostname := "i01r01c01s01"
  nbproc := 2
  hostnames := ![("i01r01c01s01" : String), "i01r01c01s02"]
  cpusets := ![(0b01 : CpuSet), 0b01]

/-- Two linked GPUs, one of them the PCI device of `smallMachine`. -/
def linkedGpus : RocmSource where
  rsmiInit := true
  bdfid := 0
  devices := [{ name := "gfx90a", pciId := some 0x300 }, { name := "gfx90a", pciId := some 0x400 }]
  hops _ _ := 1

lemma smallMachine_distinctBdfids : smallMachine.DistinctBdfids := by
  rw [HwlocSource.DistinctBdfids]
  decide

theorem topologyShape_init_smallMachine :
    ∃ g : Graph 2, runSources .insertion ([.superMUC smallSystem, .hwloc smallMachine] ++
      [.mpi twoRanks]) {} = .ok g ∧ g.TopologyShape :=
  topologyShape_init .insertion smallMachine_distinctBdfids smallSystem (by decide)
    twoRanks (.inr (List.Perm.swap _ _ _))

end Yloc
