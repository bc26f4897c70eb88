import Yloc.Lib.ExceptRun
import Yloc.Status
import Yloc.Topology
import Yloc.Util

/-!
`modules/mpi`: the MPI processes.

Every rank gets a vertex below a vertex of its host: on the local host the one
that the search of `Util` finds for the rank's CPUs, else the machine itself.

* `makeMpiRank`, `makeMpiGraph`, `MpiSource.initGraph`: the functions of
  `init_graph.cc`; the graph they are given is `root_graph()`, on which the
  search runs.
* `mpiOps`: what the module does to the topology when it attaches rank `i` at
  the key `place i`.
* `MpiOk`: what the graph has to satisfy: MPI processes are leaves, and there is
  a root vertex.
* `MpiSource.initGraph_advance`: a run on such a graph makes the changes of
  `mpiOps` for some placement (`Placement`) and leaves such a graph.
* `MpiSource.exists_initGraph`: where CHILD edges make no cycle the run returns.
-/

namespace Yloc

open Relation

variable {n : ℕ}

/-- `MPIAdapter` for rank `i`, after `set_cpu_affinity_mask(mask)`. -/
def mpiAdapter (n i : ℕ) (mask : AffinityMask n) : Adapter n where
  toString := toString i
  mpiRank := some (UInt64.ofNat i)
  cpuAffinityMask := if mask.any then some mask else none
  mObj := .mpiRank i

/-- The adapter added last becomes `a`; it is shared with the caller, who changes it. -/
def GraphElement.setLastAdapter (a : Adapter n) (v : GraphElement n) : GraphElement n :=
  { v with mAdapters := v.mAdapters.dropLast ++ [a] }

/-- What one initialisation of the module reads. -/
structure MpiSource where
  /-- `MPI_Initialized` -/
  initialized : Bool
  /-- `MPI_Get_processor_name` -/
  hostname : String
  /-- `MPI_Comm_size` -/
  nbproc : ℕ
  /-- What the two `MPI_Allgather` gather. -/
  hostnames : Fin nbproc → String
  cpusets : Fin nbproc → CpuSet

/-- What rank `i` does to its vertex first. -/
def contributeRank (i : ℕ) (v : Vertex n) : Vertex n :=
  (v.setType .mpiProcess).addAdapter (mpiAdapter n i .zero)

namespace MpiSource

/-- The mask to search for: that of a rank of the local host, unless it is empty. -/
def localMask (source : MpiSource) (n : ℕ) (i : Fin source.nbproc) : Option (AffinityMask n) :=
  if source.hostnames i = source.hostname then
    let mask := AffinityMask.ofCpuSet (source.cpusets i)
    if mask.any then some mask else none
  else none

/-- The search is for ranks of the local host. -/
lemma hostname_of_localMask {source : MpiSource} {i : Fin source.nbproc} {mask : AffinityMask n}
    (h : source.localMask n i = some mask) : source.hostnames i = source.hostname := by
  by_contra hne
  rw [localMask, if_neg hne] at h
  cases h

/-- What rank `i` does to its vertex before the search. -/
def contributeMask (source : MpiSource) (i : Fin source.nbproc) (v : Vertex n) : Vertex n :=
  match source.localMask n i with
  | some mask => v.setLastAdapter (mpiAdapter n i mask)
  | none => v

end MpiSource

/-- One round of the loop of `make_mpi_graph`. -/
def makeMpiRank (S : StdSort VertexT) (source : MpiSource) (g : Graph n)
    (i : Fin source.nbproc) : Except Abort (Graph n) := do
  let (nodeVd, g) := g.addVertexId (machineId (source.hostnames i))
  let (procVd, g) := g.addVertexId (mpiRankId i)
  let g := g.modify procVd (contributeRank i)
  let g := g.modify procVd (source.contributeMask i)
  let nodeVd ← match source.localMask n i with
    | some mask => lowestContainingVertex S g mask
    | none => .ok nodeVd
  .ok ((g.addEdge nodeVd procVd .child).addEdge procVd nodeVd .parent)

/-- `make_mpi_graph`, after the host names and CPU sets are gathered. -/
def makeMpiGraph (S : StdSort VertexT) (source : MpiSource) (g : Graph n) :
    Except Abort (Graph n) :=
  (List.finRange source.nbproc).foldlM (makeMpiRank S source) g

/-- `ModuleMPI::init_graph`. -/
def MpiSource.initGraph (S : StdSort VertexT) (source : MpiSource) (g : Graph n) :
    Except Abort (YlocStatus × Graph n) :=
  if !source.initialized then .ok (.initError, g)
  else match makeMpiGraph S source g with
    | .ok g => .ok (.success, g)
    | .error e => .error e

/-! ### What the module does to the topology -/

/-- What rank `i` does before the edges. -/
def mpiPuts (source : MpiSource) (i : Fin source.nbproc) : List (TopologyOp n) :=
  [.put (machineKey (source.hostnames i)) id, .put (mpiRankKey i) (contributeRank i),
    .put (mpiRankKey i) (source.contributeMask i)]

/-- The operations for the ranks `ranks`, rank `i` being attached at `place i`. -/
def mpiRankOps (source : MpiSource) (place : Fin source.nbproc → Key)
    (ranks : List (Fin source.nbproc)) : List (TopologyOp n) :=
  ranks.flatMap fun i => mpiPuts source i ++ [.child (place i) (mpiRankKey i)]

/-- The operations of `make_mpi_graph`. -/
def mpiOps (source : MpiSource) (place : Fin source.nbproc → Key) : List (TopologyOp n) :=
  mpiRankOps source place (List.finRange source.nbproc)

/-- The operations of `ModuleMPI::init_graph`. -/
def MpiSource.ops (source : MpiSource) (place : Fin source.nbproc → Key) :
    List (TopologyOp n) :=
  if source.initialized then mpiOps source place else []

/-- The edges to the ranks. -/
lemma mem_mpiRankOps {source : MpiSource} {place : Fin source.nbproc → Key}
    {ranks : List (Fin source.nbproc)} {a b : Key}
    (h : .child a b ∈ (mpiRankOps source place ranks : List (TopologyOp n))) :
    ∃ i ∈ ranks, a = place i ∧ b = mpiRankKey i := by
  obtain ⟨i, hi, h⟩ := List.mem_flatMap.mp h
  simp only [mpiPuts, List.mem_append, List.mem_cons, reduceCtorEq, List.not_mem_nil, or_false,
    false_or, TopologyOp.child.injEq] at h
  exact ⟨i, hi, h⟩

lemma not_childIfNew_mem_mpiRankOps {source : MpiSource} {place : Fin source.nbproc → Key}
    {ranks : List (Fin source.nbproc)} {a b : Key} :
    .childIfNew a b ∉ (mpiRankOps source place ranks : List (TopologyOp n)) := by
  intro h
  obtain ⟨i, -, h⟩ := List.mem_flatMap.mp h
  simp [mpiPuts] at h

/-- The key is not one of an MPI process. -/
def Key.NotMpi (k : Key) : Prop := ∀ i, k ≠ mpiRankKey i

/-- MPI processes have no children and the type of MPI processes. -/
structure Topology.MpiLeaves (T : Topology n) : Prop where
  leaf : ∀ a b, T.Child a b → a.NotMpi
  type : ∀ i x, T.info (mpiRankKey i) = some x → x.mType = .mpiProcess

/-- The graph is one on which the module can run: it represents a topology in
which MPI processes are leaves, and its root vertex is none of them. -/
structure MpiOk (φ : Key → Option VertexT) (g : Graph n) (T : Topology n) : Prop where
  rep : Represents φ g T
  leaves : T.MpiLeaves
  /-- The root vertex is set, or it will be the first vertex of the graph. -/
  root : g.mRootVertex < g.numVertices ∨ g.mRootVertex = 0
  /-- It is not an MPI process. -/
  root_notMpi : ∀ i, φ (mpiRankKey i) ≠ some g.mRootVertex

/-- Where the module may attach rank `i` in the topology `T` with the root at
`r`: where a search from `r` leads, or at the machine. -/
structure Placement (source : MpiSource) (T : Topology n) (r : Key) (i : Fin source.nbproc)
    (k : Key) : Prop where
  notMpi : k.NotMpi
  search : (source.localMask n i).isSome → ReflTransGen T.Child r k
  machine : source.localMask n i = none → k = machineKey (source.hostnames i)

lemma Placement.mono {source : MpiSource} {T : Topology n} {r k : Key} {i : Fin source.nbproc}
    (h : Placement source T r i k) (ops : List (TopologyOp n)) :
    Placement source (T.run ops) r i k where
  notMpi := h.notMpi
  search hmask := ReflTransGen.mono (fun _ _ hstep => Topology.run_arcs_mono ops hstep) _ _
    (h.search hmask)
  machine := h.machine

section

variable {φ : Key → Option VertexT} {g : Graph n} {T : Topology n}

lemma machineKey_notMpi (hostname : String) : (machineKey hostname).NotMpi := by
  intro i h
  simp at h

/-- Putting something on an MPI process keeps the types when it sets the type. -/
lemma Topology.MpiLeaves.put (h : T.MpiLeaves) {k : Key} {f : Vertex n → Vertex n}
    (hf : ∀ i, k = mpiRankKey i → ∀ v, (f v).mType = .mpiProcess) :
    Topology.MpiLeaves ((TopologyOp.put k f).act T) where
  leaf := h.leaf
  type i x hx := by
    by_cases hk : mpiRankKey i = k
    · subst hk
      rw [TopologyOp.put_info_self, Option.some.injEq] at hx
      rw [← hx]
      exact hf i rfl _
    · rw [TopologyOp.put_info_of_ne hk] at hx
      exact h.type i x hx

/-- The second change of an MPI process keeps the type that the first one sets. -/
lemma contributeMask_type (source : MpiSource) (i : Fin source.nbproc) (v : Vertex n) :
    (source.contributeMask i v).mType = v.mType := by
  rw [MpiSource.contributeMask]
  cases source.localMask n i <;> rfl

/-- What rank `i` puts on vertices keeps the types. -/
lemma Topology.MpiLeaves.mpiPuts (h : T.MpiLeaves) (source : MpiSource) (i : Fin source.nbproc) :
    Topology.MpiLeaves (T.run (mpiPuts source i)) := by
  have h₁ := h.put (k := machineKey (source.hostnames i)) (f := id) fun j hj =>
    absurd hj (machineKey_notMpi _ j)
  have h₂ := h₁.put (k := mpiRankKey i) (f := contributeRank i) fun _ _ _ => rfl
  refine ⟨h₂.leaf, fun j x hx => ?_⟩
  by_cases hj : mpiRankKey j = mpiRankKey i
  · rw [hj] at hx
    have hx' := hx
    simp only [Yloc.mpiPuts, Topology.run, runOps_cons, runOps_nil,
      TopologyOp.put_info_self, Option.some.injEq] at hx'
    rw [← hx', contributeMask_type]
    rfl
  · refine h₂.type j x ?_
    rw [← hx]
    exact (TopologyOp.put_info_of_ne hj _ _).symm

/-- The root vertex has a key that is no MPI process once a machine is there. -/
lemma MpiOk.exists_rootKey (h : MpiOk φ g T) {hostname : String} {φ₁ : Key → Option VertexT}
    {vd : VertexT} {g₁ : Graph n}
    (hadv : Advance φ g φ₁ g₁ (Keyed.touch (machineKey hostname) {} T))
    (hvd : φ₁ (machineKey hostname) = some vd) :
    ∃ r, φ₁ r = some g.mRootVertex ∧ r.NotMpi := by
  by_cases hlt : g.mRootVertex < g.numVertices
  · obtain ⟨r, hr⟩ := h.rep.surj _ hlt
    exact ⟨r, hadv.keeps _ _ hr, fun i hi => h.root_notMpi i (by rw [← hi, hr])⟩
  · -- the graph was empty, and its first vertex is the machine
    have hroot : g.mRootVertex = 0 := h.root.resolve_left hlt
    rw [hroot] at hlt ⊢
    obtain ⟨r, hr⟩ := hadv.rep.surj 0 (Nat.zero_lt_of_lt (hadv.rep.lt _ _ hvd))
    refine ⟨r, hr, ?_⟩
    by_cases hmachine : r = machineKey hostname
    · rw [hmachine]
      exact machineKey_notMpi hostname
    · obtain ⟨x, -, hx⟩ := hadv.rep.info_some hr
      rw [Keyed.touch_info_of_ne hmachine] at hx
      obtain ⟨v, hv, -⟩ := h.rep.placed hx
      exact absurd (Nat.zero_lt_of_lt (h.rep.lt _ _ hv)) hlt

/-- The vertices of one round: up to the edges, the round makes the changes of
`mpiPuts`. -/
lemma MpiOk.makeMpiRank_vertices (h : MpiOk φ g T) (S : StdSort VertexT) (source : MpiSource)
    (i : Fin source.nbproc) :
    ∃ φ₁ nodeVd procVd g₁ r,
      makeMpiRank S source g i =
        (match source.localMask n i with
          | some mask => lowestContainingVertex S g₁ mask
          | none => .ok nodeVd).map
            (fun vd => (g₁.addEdge vd procVd .child).addEdge procVd vd .parent) ∧
      Advance φ g φ₁ g₁ (T.run (mpiPuts source i)) ∧
      φ₁ (machineKey (source.hostnames i)) = some nodeVd ∧
      nodeVd = (g.addVertexId (machineId (source.hostnames i))).1 ∧
      φ₁ (mpiRankKey i) = some procVd ∧ φ₁ r = some g₁.mRootVertex ∧ r.NotMpi := by
  obtain ⟨φ₁, nodeVd, g₁, hnode, hnodeVd, hadv₁⟩ :=
    h.rep.addVertexId (machineId (source.hostnames i))
  obtain ⟨r, hr, hnotMpi⟩ := h.exists_rootKey hadv₁ hnodeVd
  obtain ⟨φ₂, procVd, g₂, hproc, hprocVd, hadv₂⟩ := hadv₁.rep.addVertexId (mpiRankId i)
  have hrep₁ := hadv₂.rep.modify hprocVd (contributeRank i)
  have hrep₂ := hrep₁.modify hprocVd (source.contributeMask i)
  have hrun : T.run (mpiPuts source i) = Keyed.update (mpiRankKey i) (source.contributeMask i)
      (Keyed.update (mpiRankKey i) (contributeRank i)
        (Keyed.touch (mpiRankKey i) {} (Keyed.touch (machineKey (source.hostnames i)) {} T))) := by
    rw [mpiPuts, Topology.run, runOps_cons, runOps_cons, runOps_cons, runOps_nil,
      TopologyOp.put_id]
    simp only [TopologyOp.act]
    rw [Keyed.touch_eq_self {} (hrep₁.info_vertex hprocVd)]
  refine ⟨φ₂, nodeVd, procVd,
    (g₂.modify procVd (contributeRank i)).modify procVd (source.contributeMask i), r, ?_,
    ⟨?_, hadv₁.keeps.trans hadv₂.keeps, hadv₂.root.trans hadv₁.root⟩, hadv₂.keeps _ _ hnodeVd,
    by rw [hnode], hprocVd, ?_, hnotMpi⟩
  · rw [makeMpiRank, hnode]
    simp only [hproc]
    cases source.localMask n i with
    | none => rfl
    | some mask =>
        simp only
        generalize lowestContainingVertex S _ mask = result
        cases result <;> rfl
  · rw [hrun]
    exact hrep₂
  · rw [Graph.modify_root, Graph.modify_root, hadv₂.root, hadv₁.root]
    exact hadv₂.keeps _ _ hr

/-- The search leads to no MPI process. -/
lemma Key.NotMpi.of_search {φ₁ : Key → Option VertexT} {g₁ : Graph n} {T₁ : Topology n}
    (hrep : Represents φ₁ g₁ T₁) (hleaves : T₁.MpiLeaves) {r p : Key}
    (hr : φ₁ r = some g₁.mRootVertex) (hnotMpi : r.NotMpi) {S : StdSort VertexT}
    {mask : AffinityMask n} {v : VertexT} (hsearch : lowestContainingVertex S g₁ mask = .ok v)
    (hp : φ₁ p = some v) : p.NotMpi := by
  obtain ⟨-, hreach, -⟩ := lowestContainingVertex_spec hsearch
  intro j hj
  rcases ReflTransGen.cases_tail hreach with hroot | ⟨w, -, hw⟩
  · rw [hroot] at hp
    exact hnotMpi j ((hrep.inj _ _ _ hr hp).trans hj)
  · -- the last step of the search leads to a vertex of another type
    have htype := hleaves.type j _ (by rw [← hj]; exact hrep.info_vertex hp)
    have heligible := hw.1.2
    rw [Graph.eligible, htype] at heligible
    simp [show Component.mpiProcess.isA .mpiProcess = true from rfl] at heligible

/-- The key at which a round attaches its rank. -/
lemma Placement.of_search {φ₁ : Key → Option VertexT} {g₁ : Graph n} {T₁ : Topology n}
    (hrep : Represents φ₁ g₁ T₁) (hleaves : T₁.MpiLeaves) {r : Key}
    (hr : φ₁ r = some g₁.mRootVertex) (hnotMpi : r.NotMpi) {S : StdSort VertexT}
    {source : MpiSource} {i : Fin source.nbproc} {nodeVd v : VertexT}
    (hnode : φ₁ (machineKey (source.hostnames i)) = some nodeVd)
    (hsearch : (match source.localMask n i with
      | some mask => lowestContainingVertex S g₁ mask
      | none => .ok nodeVd) = .ok v) :
    ∃ p, φ₁ p = some v ∧ Placement source T₁ r i p := by
  cases hmask : source.localMask n i with
  | none =>
      rw [hmask] at hsearch
      obtain rfl : nodeVd = v := Except.ok.inj hsearch
      exact ⟨_, hnode, machineKey_notMpi _, by simp [hmask], fun _ => rfl⟩
  | some mask =>
      rw [hmask] at hsearch
      obtain ⟨-, hreach, -⟩ := lowestContainingVertex_spec hsearch
      obtain ⟨p, hp, hrp⟩ := hrep.exists_reach hr
        (Graph.reach_child_of_eligible (Graph.reach_eligible_of_descends hreach))
      exact ⟨p, hp, .of_search hrep hleaves hr hnotMpi hsearch hp, fun _ => hrp, by simp [hmask]⟩

/-- What one round does to the topology. -/
lemma mpiRound_run (source : MpiSource) (i : Fin source.nbproc) (p : Key) (T : Topology n) :
    T.run (mpiPuts source i ++ [.child p (mpiRankKey i)]) =
      (T.run (mpiPuts source i)).addChild p (mpiRankKey i) := by
  rw [Topology.run, runOps_append]
  rfl

/-- A round adds a leaf, which closes no cycle. -/
lemma acyclic_mpiRound (hleaves : T.MpiLeaves) (hacyclic : Acyclic T.Child)
    (source : MpiSource) (i : Fin source.nbproc) {p : Key} (hp : p.NotMpi) :
    Acyclic (T.run (mpiPuts source i ++ [.child p (mpiRankKey i)])).Child := by
  have hleaf : ∀ c, ¬ (T.run (mpiPuts source i)).Child (mpiRankKey i) c :=
    fun c hc => hleaves.leaf _ _ hc i rfl
  have hadd := Acyclic.add_leaf (r := (T.run (mpiPuts source i)).Child) hacyclic (hp i) hleaf
  rw [mpiRound_run]
  exact hadd.mono fun a b hab => Topology.addChild_child.mp hab

/-- **A round of the loop that returns** makes its changes and leaves a graph for
the next one. -/
theorem makeMpiRank_advance (h : MpiOk φ g T) {S : StdSort VertexT} {source : MpiSource}
    {i : Fin source.nbproc} {g' : Graph n} (hrun : makeMpiRank S source g i = .ok g') :
    ∃ φ' r p, Advance φ g φ' g' (T.run (mpiPuts source i ++ [.child p (mpiRankKey i)])) ∧
      MpiOk φ' g' (T.run (mpiPuts source i ++ [.child p (mpiRankKey i)])) ∧
      φ' (machineKey (source.hostnames i)) =
        some (g.addVertexId (machineId (source.hostnames i))).1 ∧
      φ' r = some g'.mRootVertex ∧
      Placement source (T.run (mpiPuts source i ++ [.child p (mpiRankKey i)])) r i p := by
  obtain ⟨φ₁, nodeVd, procVd, g₁, r, heq, hadv, hnode, hvd, hproc, hr, hnotMpi⟩ :=
    h.makeMpiRank_vertices S source i
  have hleaves := h.leaves.mpiPuts source i
  rw [heq] at hrun
  obtain ⟨v, hv, rfl⟩ := Except.exists_of_map hrun
  obtain ⟨p, hp, hplace⟩ := Placement.of_search hadv.rep hleaves hr hnotMpi hnode hv
  have hedges := hadv.rep.child hp hproc
  have hmono := hplace.mono [.child p (mpiRankKey i)]
  rw [Topology.run, Topology.run, ← runOps_append] at hmono
  refine ⟨φ₁, r, p, ?_, ⟨?_, ⟨fun a b hab => ?_, ?_⟩, ?_, fun j hj => ?_⟩,
    hvd ▸ hnode, hr, hmono⟩
  · rw [mpiRound_run]
    exact hadv.trans hedges
  · rw [mpiRound_run]
    exact hedges.rep
  · rw [mpiRound_run, Topology.addChild_child] at hab
    rcases hab with hab | ⟨rfl, -⟩
    · exact hleaves.leaf a b hab
    · exact hplace.notMpi
  · rw [mpiRound_run]
    exact hleaves.type
  · exact .inl (hedges.rep.lt _ _ hr)
  · exact hnotMpi j (hedges.rep.inj _ _ _ hr hj)

/-- Without cycles of CHILD edges a round returns. -/
lemma exists_makeMpiRank (h : MpiOk φ g T) (hacyclic : Acyclic T.Child) (S : StdSort VertexT)
    (source : MpiSource) (i : Fin source.nbproc) :
    ∃ g', makeMpiRank S source g i = .ok g' := by
  obtain ⟨φ₁, nodeVd, procVd, g₁, r, heq, hadv, -, -, -, hr, -⟩ :=
    h.makeMpiRank_vertices S source i
  rw [heq]
  cases source.localMask n i with
  | none => exact ⟨_, rfl⟩
  | some mask =>
      obtain ⟨v, hv⟩ := exists_lowestContainingVertex S mask (hadv.rep.lt _ _ hr)
        (fun u v huv => (hadv.rep.step_lt huv).2) (hadv.rep.acyclic hacyclic)
      simp only [hv]
      exact ⟨_, rfl⟩

/-- The operations for ranks none of which is `i` do not look at the place of `i`. -/
lemma mpiRankOps_update {source : MpiSource} {ranks : List (Fin source.nbproc)}
    {i : Fin source.nbproc} (hi : i ∉ ranks) (place : Fin source.nbproc → Key) (p : Key) :
    mpiRankOps source (Function.update place i p) (i :: ranks) =
      (mpiPuts source i ++ [.child p (mpiRankKey i)]) ++
        (mpiRankOps source place ranks : List (TopologyOp n)) := by
  rw [mpiRankOps, List.flatMap_cons, Function.update_self, mpiRankOps]
  congr 1
  refine List.flatMap_congr fun j hj => ?_
  rw [Function.update_of_ne (ne_of_mem_of_not_mem hj hi)]

/-- The rounds for a list of ranks, once they return. -/
lemma makeMpiRanks_advance {S : StdSort VertexT} {source : MpiSource}
    {ranks : List (Fin source.nbproc)} (hnodup : ranks.Nodup) (h : MpiOk φ g T) {g' : Graph n}
    (hrun : ranks.foldlM (makeMpiRank S source) g = .ok g') :
    ∃ φ' place, Advance φ g φ' g' (T.run (mpiRankOps source place ranks)) ∧
      MpiOk φ' g' (T.run (mpiRankOps source place ranks)) ∧
      (∀ i ∈ ranks.head?, φ' (machineKey (source.hostnames i)) =
        some (g.addVertexId (machineId (source.hostnames i))).1) ∧
      ∀ i ∈ ranks, ∃ r, φ' r = some g'.mRootVertex ∧
        Placement source (T.run (mpiRankOps source place ranks)) r i (place i) := by
  induction ranks generalizing φ g T with
  | nil =>
      obtain rfl : g = g' := Except.ok.inj hrun
      exact ⟨φ, fun i => machineKey (source.hostnames i), .refl h.rep, h, by simp, by simp⟩
  | cons i ranks ih =>
      obtain ⟨hi, hnodup⟩ := List.nodup_cons.mp hnodup
      rw [List.foldlM_cons] at hrun
      obtain ⟨g₁, hrun₁, hrun₂⟩ := Except.exists_of_bind hrun
      obtain ⟨φ₁, r, p, hadv₁, hok₁, hvd, hr, hplace₁⟩ := makeMpiRank_advance h hrun₁
      obtain ⟨φ₂, place, hadv₂, hok₂, -, hplace₂⟩ := ih hnodup hok₁ hrun₂
      refine ⟨φ₂, Function.update place i p, ?_⟩
      rw [mpiRankOps_update hi, Topology.run, runOps_append]
      refine ⟨hadv₁.trans hadv₂, hok₂, fun j hj => ?_, fun j hj => ?_⟩
      · rw [List.head?_cons, Option.mem_some_iff] at hj
        subst hj
        exact hadv₂.keeps _ _ hvd
      rcases List.mem_cons.mp hj with rfl | hj
      · refine ⟨r, ?_, ?_⟩
        · rw [hadv₂.root]
          exact hadv₂.keeps _ _ hr
        · rw [Function.update_self]
          exact hplace₁.mono _
      · rw [Function.update_of_ne (ne_of_mem_of_not_mem hj hi)]
        exact hplace₂ j hj

/-- Without cycles of CHILD edges the rounds return and close none. -/
lemma exists_makeMpiRanks (h : MpiOk φ g T) (hacyclic : Acyclic T.Child) (S : StdSort VertexT)
    (source : MpiSource) (ranks : List (Fin source.nbproc)) :
    ∃ g', ranks.foldlM (makeMpiRank S source) g = .ok g' ∧ Acyclic g'.Child := by
  induction ranks generalizing φ g T with
  | nil => exact ⟨g, rfl, h.rep.acyclic hacyclic⟩
  | cons i ranks ih =>
      obtain ⟨g₁, hrun₁⟩ := exists_makeMpiRank h hacyclic S source i
      obtain ⟨φ₁, r, p, -, hok₁, -, -, hplace₁⟩ := makeMpiRank_advance h hrun₁
      obtain ⟨g₂, hrun₂, hacyclic₂⟩ :=
        ih hok₁ (acyclic_mpiRound h.leaves hacyclic source i hplace₁.notMpi)
      refine ⟨g₂, ?_, hacyclic₂⟩
      rw [List.foldlM_cons, hrun₁]
      exact hrun₂

/-- `ModuleMPI::init_graph` returns what the loop returns, if it runs at all. -/
lemma MpiSource.initGraph_eq (S : StdSort VertexT) (source : MpiSource) (g : Graph n) :
    source.initGraph S g =
      if source.initialized then (makeMpiGraph S source g).map fun g => (.success, g)
      else .ok (.initError, g) := by
  rw [MpiSource.initGraph]
  cases source.initialized with
  | false => rfl
  | true => cases makeMpiGraph S source g <;> rfl

/-- **`ModuleMPI::init_graph`, once it returns, makes the changes of its
operations**, for some placement of the ranks. The first vertex that it asks for is
the machine of the first rank. -/
theorem MpiSource.initGraph_advance (h : MpiOk φ g T) {S : StdSort VertexT} {source : MpiSource}
    {status : YlocStatus} {g' : Graph n} (hrun : source.initGraph S g = .ok (status, g')) :
    ∃ φ' place, Advance φ g φ' g' (T.run (source.ops place)) ∧
      MpiOk φ' g' (T.run (source.ops place)) ∧
      (source.initialized = true → ∀ i ∈ (List.finRange source.nbproc).head?,
        φ' (machineKey (source.hostnames i)) =
          some (g.addVertexId (machineId (source.hostnames i))).1) ∧
      (source.initialized = true → ∀ i, ∃ r, φ' r = some g'.mRootVertex ∧
        Placement source (T.run (source.ops place)) r i (place i)) := by
  rw [MpiSource.initGraph_eq] at hrun
  cases hinit : source.initialized with
  | false =>
      rw [hinit] at hrun
      cases hrun
      refine ⟨φ, fun i => machineKey (source.hostnames i), ?_⟩
      rw [MpiSource.ops, hinit]
      exact ⟨.refl h.rep, h, by simp, by simp⟩
  | true =>
      rw [hinit, if_pos rfl] at hrun
      obtain ⟨g₁, hloop, heq⟩ := Except.exists_of_map hrun
      cases heq
      obtain ⟨φ', place, hadv, hok, hfirst, hplace⟩ :=
        makeMpiRanks_advance (List.nodup_finRange _) h hloop
      refine ⟨φ', place, ?_⟩
      rw [MpiSource.ops, hinit]
      exact ⟨hadv, hok, fun _ => hfirst, fun _ i => hplace i (List.mem_finRange i)⟩

/-- **`ModuleMPI::init_graph` returns** when CHILD edges make no cycle, and then
they make none afterwards. -/
theorem MpiSource.exists_initGraph (h : MpiOk φ g T) (hacyclic : Acyclic T.Child)
    (S : StdSort VertexT) (source : MpiSource) :
    ∃ status g', source.initGraph S g = .ok (status, g') ∧ Acyclic g'.Child := by
  rw [MpiSource.initGraph_eq]
  cases source.initialized with
  | false => exact ⟨_, _, rfl, h.rep.acyclic hacyclic⟩
  | true =>
      obtain ⟨g', hrun, hacyclic'⟩ :=
        exists_makeMpiRanks h hacyclic S source (List.finRange source.nbproc)
      refine ⟨.success, g', ?_, hacyclic'⟩
      rw [if_pos rfl, makeMpiGraph, hrun]
      rfl

end

end Yloc
