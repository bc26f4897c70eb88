import Yloc.Shape

/-!
The graphs of different ranks agree on where the ranks are.

A `Job` is a set of ranks, each of which has run `ModuleHwloc` on its host and
then runs `ModuleMPI` on its own root graph, with the same gathered vectors. A
rank of the local host is attached by a search from the root vertex, which is the
local machine, a rank of another host at its machine; either way it ends up in
the tree of its own host.

* `Topology.incoming_run`: a run adds no CHILD edge into a key that none of its
  operations leads to.
* `Job.lookup_isSome`, `Job.placesRank`: the identifiers that a rank binds, and the
  place of a rank.
* `placement_agree`: any two ranks agree.
-/

namespace Yloc

open Relation

variable {n : ℕ}

/-! ### Incoming CHILD edges -/

/-- The CHILD edges into `vd`. -/
def Graph.incomingChild (g : Graph n) (vd : VertexT) : List Edge :=
  g.edges.filter fun e => e.target == vd && e.label == .child

namespace Topology

/-- The CHILD edges into `k`. -/
def incoming (T : Topology n) (k : Key) : List (Arc Key EdgeType) :=
  T.arcs.filter fun e => e.target == k && e.label == .child

variable {T : Topology n} {k : Key}

lemma addChild_incoming_self (a k : Key) (T : Topology n) :
    (T.addChild a k).incoming k = T.incoming k ++ [⟨a, k, .child⟩] := by
  simp [incoming]

/-- An operation adds no CHILD edge into a key that it does not lead to. -/
lemma incoming_act {op : TopologyOp n} (hchild : ∀ a, op ≠ .child a k)
    (hguarded : ∀ a, op ≠ .childIfNew a k) : incoming (op.act T) k = T.incoming k := by
  rcases op.act_arcs T with harcs | ⟨a, b, hop, harcs⟩ | ⟨a, b, -, harcs⟩
  · rw [incoming, harcs]
    rfl
  · have hb : b ≠ k := by
      rintro rfl
      rcases hop with hop | hop
      · exact hchild a hop
      · exact hguarded a hop
    simp [incoming, harcs, hb]
  · simp [incoming, harcs]

/-- A run adds no CHILD edge into a key that none of its operations leads to. -/
lemma incoming_run {ops : List (TopologyOp n)} (hchild : ∀ a, .child a k ∉ ops)
    (hguarded : ∀ a, .childIfNew a k ∉ ops) : (T.run ops).incoming k = T.incoming k := by
  induction ops generalizing T with
  | nil => rfl
  | cons op ops ih =>
      have hop : incoming (op.act T) k = T.incoming k :=
        incoming_act (fun a ha => hchild a (by simp [ha])) fun a ha => hguarded a (by simp [ha])
      have hops := ih (T := op.act T) (fun a ha => hchild a (List.mem_cons_of_mem _ ha))
        fun a ha => hguarded a (List.mem_cons_of_mem _ ha)
      exact hops.trans hop

end Topology

/-- The CHILD edges into the vertex of a key. -/
lemma Represents.incomingChild {φ : Key → Option VertexT} {g : Graph n} {T : Topology n}
    (h : Represents φ g T) {k : Key} {v : VertexT} (hk : φ k = some v) :
    g.incomingChild v = (T.incoming k).map (Arc.map (place φ)) := by
  rw [Graph.incomingChild, Topology.incoming, h.arcs, List.filter_map]
  congr 1
  refine List.filter_congr fun e he => ?_
  obtain ⟨-, w, hw⟩ := h.ends e he
  have htarget : (w == v) = (e.target == k) := by
    rw [Bool.eq_iff_iff, beq_iff_eq, beq_iff_eq]
    constructor
    · rintro rfl
      exact h.inj _ _ w hw hk
    · intro heq
      rw [heq, hk] at hw
      exact (Option.some.inj hw).symm
  simp [place_eq hw, htarget]

/-- No edge leads to a key that has no vertex. -/
lemma Represents.incoming_eq_nil {φ : Key → Option VertexT} {g : Graph n} {T : Topology n}
    (h : Represents φ g T) {k : Key} (hk : T.info k = none) : T.incoming k = [] := by
  refine List.filter_eq_nil_iff.mpr fun e he htarget => ?_
  simp only [Bool.and_eq_true, beq_iff_eq] at htarget
  obtain ⟨-, v, hv⟩ := h.ends e he
  rw [htarget.1, h.info_eq_none_iff.mp hk] at hv
  cases hv

/-! ### The edges to the ranks -/

/-- Rank `i` gets one CHILD edge, from where it is attached. -/
lemma mpiOps_incoming (source : MpiSource) (place : Fin source.nbproc → Key)
    (i : Fin source.nbproc) (T : Topology n) :
    (T.run (mpiOps source place)).incoming (mpiRankKey i) =
      T.incoming (mpiRankKey i) ++ [⟨place i, mpiRankKey i, .child⟩] := by
  obtain ⟨l, l', hl⟩ := List.append_of_mem (List.mem_finRange i)
  have hnodup := List.nodup_finRange source.nbproc
  rw [hl] at hnodup
  -- the rounds of other ranks add no such edge
  have hother : ∀ (ranks : List (Fin source.nbproc)) (T : Topology n), i ∉ ranks →
      (T.run (mpiRankOps source place ranks)).incoming (mpiRankKey i) =
        T.incoming (mpiRankKey i) := by
    intro ranks T hi
    refine Topology.incoming_run (fun a ha => ?_) fun a ha => not_childIfNew_mem_mpiRankOps ha
    obtain ⟨j, hj, -, hij⟩ := mem_mpiRankOps ha
    rw [Key.name.injEq, mpiRankId_inj] at hij
    exact hi (Fin.ext hij ▸ hj)
  have hsplit : (mpiOps source place : List (TopologyOp n)) =
      mpiRankOps source place l ++ ((mpiPuts source i ++ [.child (place i) (mpiRankKey i)]) ++
        mpiRankOps source place l') := by
    rw [mpiOps, hl, mpiRankOps, List.flatMap_append, List.flatMap_cons]
    rfl
  have hround : ∀ T : Topology n, (T.run (mpiPuts source i)).incoming (mpiRankKey i) =
      T.incoming (mpiRankKey i) := fun T =>
    Topology.incoming_run (by simp [mpiPuts]) (by simp [mpiPuts])
  rw [hsplit, Topology.run, runOps_append, runOps_append]
  calc _ = (Topology.run (mpiPuts source i ++ [.child (place i) (mpiRankKey i)])
            (T.run (mpiRankOps source place l))).incoming (mpiRankKey i) :=
        hother l' _ fun hi => (List.nodup_cons.mp (List.nodup_append.mp hnodup).2.1).1 hi
    _ = (T.run (mpiRankOps source place l)).incoming (mpiRankKey i) ++
          [⟨place i, mpiRankKey i, .child⟩] := by
        rw [mpiRound_run, Topology.addChild_incoming_self, hround]
    _ = T.incoming (mpiRankKey i) ++ [⟨place i, mpiRankKey i, .child⟩] := by
        rw [hother l _ fun hi => (List.nodup_append.mp hnodup).2.2 i hi i (by simp) rfl]

/-! ### The ranks of a job -/

/-- The ranks of one job: `ModuleHwloc` succeeds on every rank, and the name of
the host is the name of the processor. -/
structure Job where
  ranks : ℕ
  /-- `MPI_Get_processor_name`, by rank. -/
  names : Fin ranks → String
  cpusets : Fin ranks → CpuSet
  /-- `m_nprocs_online`, by rank. -/
  nprocsOnline : Fin ranks → ℕ
  hwloc : Fin ranks → HwlocSource
  hostname_eq : ∀ p, (hwloc p).hostname = names p
  version_eq : ∀ p, (hwloc p).checkHwlocApiVersion = .success

/-- Rank `i` has one incoming CHILD edge, from the machine `hostname` or from a
vertex below it. -/
def Graph.PlacesRank (g : Graph n) (i : ℕ) (hostname : String) : Prop :=
  ∃ rankVd machineVd vd, g.lookup (mpiRankId i) = some rankVd ∧
    g.lookup (machineId hostname) = some machineVd ∧
    g.incomingChild rankVd = [⟨vd, rankVd, .child⟩] ∧ ReflTransGen g.Child machineVd vd

namespace Job

variable {job : Job} {S : StdSort VertexT} {p : Fin job.ranks}

/-- What `ModuleMPI` reads on rank `p`. -/
abbrev mpi (job : Job) (p : Fin job.ranks) : MpiSource where
  initialized := true
  hostname := job.names p
  nbproc := job.ranks
  hostnames := job.names
  cpusets := job.cpusets

/-- The two modules on rank `p`. -/
def run (S : StdSort VertexT) (job : Job) (p : Fin job.ranks) :
    Except Abort (Graph (job.nprocsOnline p)) :=
  runSources S [.hwloc (job.hwloc p), .mpi (job.mpi p)] {}

/-- What the operations of a rank are, and where they put something. -/
lemma mem_putKey {i : ℕ} (job : Job) (p : Fin job.ranks) (place : Fin job.ranks → Key) (k : Key) :
    k ∈ (sourcesOps 0 [.hwloc (job.hwloc p)] ++ (job.mpi p).ops place :
        List (TopologyOp i)).filterMap TopologyOp.putKey ↔
      k ∈ (job.hwloc p).api.hwlocKeys 0 (job.hwloc p).children ∨
        ∃ j, k = machineKey (job.names j) ∨ k = mpiRankKey j := by
  have hhwloc : (sourcesOps 0 [.hwloc (job.hwloc p)] : List (TopologyOp i)).filterMap
      TopologyOp.putKey = machineKey (job.names p) ::
        (job.hwloc p).api.hwlocKeys 0 (job.hwloc p).children := by
    rw [sourcesOps, sourcesOps, List.append_nil, ModuleSource.ops, if_pos (job.version_eq p),
      HwlocSource.ops, List.filterMap_cons, HwlocApi.hwlocOps_putKey, job.hostname_eq]
    rfl
  have hmpi : k ∈ ((job.mpi p).ops place : List (TopologyOp i)).filterMap TopologyOp.putKey ↔
      ∃ j, k = machineKey (job.names j) ∨ k = mpiRankKey j := by
    rw [MpiSource.ops, if_pos rfl, mpiOps, mpiRankOps, List.filterMap_flatMap, List.mem_flatMap]
    simp [mpiPuts, TopologyOp.putKey, mpi]
  rw [List.filterMap_append, List.mem_append, hhwloc, hmpi, List.mem_cons]
  constructor
  · rintro ((rfl | h) | h)
    · exact .inr ⟨p, .inl rfl⟩
    · exact .inl h
    · exact .inr h
  · rintro (h | h)
    · exact .inl (.inr h)
    · exact .inr h

lemma isFirst (job : Job) {p : Fin job.ranks} :
    ∀ source ∈ [ModuleSource.hwloc (job.hwloc p)], source.IsFirst := by
  simp [ModuleSource.IsFirst]

/-- Apart from PCI devices a rank binds the machines and the ranks of the job. -/
lemma lookup_isSome {g : Graph (job.nprocsOnline p)} (hrun : job.run S p = .ok g)
    {id : Identifier} (hid : ∀ b, id ≠ bdfidId b) :
    (g.lookup id).isSome ↔ ∃ j, id = machineId (job.names j) ∨ id = mpiRankId j := by
  obtain ⟨φ, φ', g₀, place, -, -, -, hadv, -, -, -⟩ :=
    runMpi_advance job.isFirst hrun
  have hinfo : (g.lookup id).isSome ↔ ((Topology.run
      (sourcesOps 0 [.hwloc (job.hwloc p)] ++ (job.mpi p).ops place) Keyed.empty :
        Topology (job.nprocsOnline p)).info (.name id)).isSome := by
    rw [hadv.rep.ids, ← not_iff_not, Option.not_isSome_iff_eq_none, Option.not_isSome_iff_eq_none,
      hadv.rep.info_eq_none_iff]
  rw [hinfo, Topology.run_info_isSome, mem_putKey]
  simp only [Keyed.empty, Option.isSome_none, Bool.false_eq_true, false_or, Key.name.injEq]
  refine or_iff_right fun h => ?_
  rcases HwlocApi.mem_hwlocKeys h with ⟨b, hb⟩ | ⟨j, -, hj⟩
  · exact hid b (Key.name.inj hb)
  · cases hj

/-- The root vertex of a rank is its machine. -/
lemma root_eq {g : Graph n} (hrun : runSources S [.hwloc (job.hwloc p)] ({} : Graph n) = .ok g) :
    g.lookup (machineId (job.names p)) = some g.mRootVertex := by
  obtain ⟨φ, g', hhwloc, hrep, -, hroot⟩ := HwlocSource.initGraph_represents
    (Represents.empty (n := n)) (s := 0) (fun i _ => rfl) (job.version_eq p)
  obtain rfl : g' = g := by
    have hrun' : Except.ok (job.hwloc p |>.initGraph ({} : Graph n)).2 = .ok g := hrun
    rw [hhwloc] at hrun'
    exact Except.ok.inj hrun'
  rw [hrep.ids, ← hroot, job.hostname_eq]

/-- **Where a rank is**: in the tree of its host, whichever rank has built the
graph. -/
theorem placesRank {g : Graph (job.nprocsOnline p)} (hrun : job.run S p = .ok g)
    (i : Fin job.ranks) : g.PlacesRank i (job.names i) := by
  obtain ⟨φ, φ', g₀, place, hrep, hhwloc, -, hadv, -, -, hplace⟩ :=
    runMpi_advance job.isFirst hrun
  obtain ⟨r, hr, hplace⟩ := hplace rfl i
  -- the root vertex is the machine of the rank that builds the graph
  have hroot : r = machineKey (job.names p) := by
    refine hadv.rep.inj _ _ _ hr ?_
    rw [hadv.root, ← root_eq hhwloc, hrep.ids]
    have hmachine := root_eq hhwloc
    rw [hrep.ids] at hmachine
    rw [hmachine]
    exact hadv.keeps _ _ hmachine
  have hbound : ∀ k, (∃ j, k = machineKey (job.names j) ∨ k = mpiRankKey j) →
      ∃ v, φ' k = some v := by
    intro k hk
    refine hadv.rep.exists_place ?_
    rw [Topology.run_info_isSome, mem_putKey]
    exact .inr (.inr hk)
  obtain ⟨rankVd, hrankVd⟩ := hbound (mpiRankKey i) ⟨i, .inr rfl⟩
  obtain ⟨machineVd, hmachineVd⟩ := hbound (machineKey (job.names i)) ⟨i, .inl rfl⟩
  have hincoming : Topology.incoming (Topology.run
      (sourcesOps 0 [.hwloc (job.hwloc p)] ++ (job.mpi p).ops place) Keyed.empty :
        Topology (job.nprocsOnline p)) (mpiRankKey i) = [⟨place i, mpiRankKey i, .child⟩] := by
    rw [Topology.run, runOps_append, MpiSource.ops, if_pos rfl, mpiOps_incoming,
      hrep.incoming_eq_nil (sourcesOps_info_mpi _ _ _), List.nil_append]
  obtain ⟨⟨vd, hvd⟩, -⟩ := hadv.rep.ends ⟨place i, mpiRankKey i, .child⟩ (by
    refine List.mem_of_mem_filter (?_ : _ ∈ Topology.incoming _ (mpiRankKey i))
    rw [hincoming]
    exact List.mem_singleton.mpr rfl)
  refine ⟨rankVd, machineVd, vd, ?_, ?_, ?_, ?_⟩
  · rw [hadv.rep.ids, hrankVd]
  · rw [hadv.rep.ids, hmachineVd]
  · rw [hadv.rep.incomingChild hrankVd, hincoming]
    simp [Arc.map, place_eq hvd, place_eq hrankVd]
  · refine (hadv.rep.reach_iff hmachineVd hvd).mpr ?_
    cases hmask : (job.mpi p).localMask (job.nprocsOnline p) i with
    | none =>
        rw [hplace.machine hmask]
    | some mask =>
        have hlocal := MpiSource.hostname_of_localMask hmask
        have hreach := hplace.search (by rw [hmask]; rfl)
        rw [hroot] at hreach
        rwa [show job.names i = job.names p from hlocal]

end Job

/-- **Graphs of different ranks agree on placement.** A rank builds a graph when
the PCI devices of its host have different bdfids, and any two ranks that build
one bind the same ranks and machines and place every rank in the tree of its
host. -/
theorem placement_agree (job : Job) (S : Fin job.ranks → StdSort VertexT) :
    (∀ p, (job.hwloc p).DistinctBdfids → ∃ g, job.run (S p) p = .ok g) ∧
    ∀ p q gp gq, job.run (S p) p = .ok gp → job.run (S q) q = .ok gq →
      (∀ s, (gp.lookup ("mpi_rank:" ++ s)).isSome = (gq.lookup ("mpi_rank:" ++ s)).isSome) ∧
      (∀ s, (gp.lookup ("machine:" ++ s)).isSome = (gq.lookup ("machine:" ++ s)).isSome) ∧
      ∀ i : Fin job.ranks, gp.PlacesRank i (job.names i) ∧ gq.PlacesRank i (job.names i) := by
  refine ⟨fun p hbdfids => ?_, fun p q gp gq hp hq => ⟨fun s => ?_, fun s => ?_, fun i =>
    ⟨Job.placesRank hp i, Job.placesRank hq i⟩⟩⟩
  · have hok : SourcesOk [.hwloc (job.hwloc p)] := by
      refine ⟨by simp [ModuleSource.IsFirst], by simp, fun hw hmem => ?_, by simp⟩
      rw [ModuleSource.hwloc.inj (List.mem_singleton.mp hmem)]
      exact hbdfids
    obtain ⟨g, hrun, -⟩ := hok.exists_runMpi (n := job.nprocsOnline p) (S p) (job.mpi p)
    exact ⟨g, hrun⟩
  · have hid : ∀ b, "mpi_rank:" ++ s ≠ bdfidId b := fun b =>
      append_ne_append (by decide) (by decide) (by decide)
    rw [Bool.eq_iff_iff, Job.lookup_isSome hp hid, Job.lookup_isSome hq hid]
  · have hid : ∀ b, "machine:" ++ s ≠ bdfidId b := fun b =>
      append_ne_append (by decide) (by decide) (by decide)
    rw [Bool.eq_iff_iff, Job.lookup_isSome hp hid, Job.lookup_isSome hq hid]

/-- The two ranks of `twoRanks`, on machines like `smallMachine`. -/
def smallJob : Job where
  ranks := 2
  names := twoRanks.hostnames
  cpusets := twoRanks.cpusets
  nprocsOnline := ![2, 2]
  hwloc p := { smallMachine with hostname := twoRanks.hostnames p }
  hostname_eq _ := rfl
  version_eq _ := (by decide : smallMachine.checkHwlocApiVersion = .success)

theorem placement_agree_smallJob :
    ∃ gp gq, smallJob.run .insertion (0 : Fin 2) = .ok gp ∧
      smallJob.run .insertion (1 : Fin 2) = .ok gq ∧
      ∀ i : Fin 2, gp.PlacesRank i (twoRanks.hostnames i) ∧
        gq.PlacesRank i (twoRanks.hostnames i) := by
  obtain ⟨hruns, hagree⟩ := placement_agree smallJob fun _ => .insertion
  obtain ⟨gp, hp⟩ := hruns (0 : Fin 2) smallMachine_distinctBdfids
  obtain ⟨gq, hq⟩ := hruns (1 : Fin 2) smallMachine_distinctBdfids
  exact ⟨gp, gq, hp, hq, (hagree (0 : Fin 2) (1 : Fin 2) gp gq hp hq).2.2⟩

end Yloc
