import Yloc.HopDistance
import Yloc.VertexTypes

/-!
`example-mpi.cc`: the distances between all ranks.

`rankDistances` is the loop of `main` on rank 0, with what it writes as its result. It takes
`value()` of the rank of every vertex of the view of the MPI processes.

* `makeMpiRanks_pairwise`: the vertices of the ranks are in the order of the ranks.
* `rankVertices_eq`: the view of the MPI processes consists of them.
* `rankDistances_init`: after `init` every rank writes its number and a line for every rank,
  in order, and the numbers of hops are a metric on ranks that are connected.
-/

namespace Yloc

variable {n : ℕ}

/-- What `main` writes about one rank. -/
structure DistancesFrom where
  mpiRank : UInt64
  /-- The other ranks and the numbers of hops. -/
  hops : List (UInt64 × ℤ)
  deriving DecidableEq

/-- `g[vd].get("mpi_rank").value()`. -/
def Graph.mpiRankValue (g : Graph n) (vd : VertexT) : Except Abort UInt64 :=
  match (g.vertex vd).get .uint64 "mpi_rank" with
  | some (mpiRank : UInt64) => .ok mpiRank
  | none => .error .badOptionalAccess

/-- One round of the loop of `main`. -/
def Graph.distancesFrom (g : Graph n) (graphView : GraphView) (v1 : VertexT) :
    Except Abort DistancesFrom := do
  let dist := bfsDistances g v1
  let mpiRank ← g.mpiRankValue v1
  let hops ← graphView.vertexRange.mapM fun v2 => do
    let mpiRank ← g.mpiRankValue v2
    .ok (mpiRank, dist.getD v2 0)
  .ok ⟨mpiRank, hops⟩

/-- What `main` of `example-mpi.cc` writes on rank 0. -/
def rankDistances (g : Graph n) : Except Abort (List DistancesFrom) :=
  let graphView := g.typeView .mpiProcess
  graphView.vertexRange.mapM (g.distancesFrom graphView)

/-- The numbers of hops between the vertices `vertexOf` are a metric where they are
connected, and zero where they are not. -/
structure Graph.HopMetric (g : Graph n) {m : ℕ} (vertexOf : Fin m → VertexT)
    (hops : Fin m → Fin m → ℤ) : Prop where
  shortest : ∀ i j p, g.ShortestPath (vertexOf i) p (vertexOf j) → hops i j = p.length
  eq_zero_iff : ∀ i j, hops i j = 0 ↔ i = j ∨ ∀ p, ¬ g.Path (vertexOf i) p (vertexOf j)
  comm : ∀ i j, hops i j = hops j i
  triangle : ∀ i j k p q, g.Path (vertexOf i) p (vertexOf j) →
    g.Path (vertexOf j) q (vertexOf k) → hops i k ≤ hops i j + hops j k

/-! ### The order of the vertices -/

section

variable {φ : Key → Option VertexT} {g g' : Graph n} {T : Topology n} {source : MpiSource}

/-- The round of one rank binds the identifiers of no other rank. -/
lemma mpiRound_info (i : Fin source.nbproc) (p : Key) {j : ℕ} (hne : j ≠ i) :
    (T.run (mpiPuts source i ++ [.child p (mpiRankKey i)])).info (mpiRankKey j) =
      T.info (mpiRankKey j) := by
  refine Topology.run_info_of_not_mem fun hmem => ?_
  simp [mpiPuts, TopologyOp.putKey, hne, (machineId_ne_mpiRankId _ _).symm] at hmem

/-- **The vertices of the ranks are in the order of the ranks.** -/
theorem makeMpiRanks_pairwise {S : StdSort VertexT} {ranks : List (Fin source.nbproc)}
    (hnodup : ranks.Nodup) (h : MpiOk φ g T)
    (hfresh : ∀ i ∈ ranks, g.lookup (mpiRankId i) = none)
    (hrun : ranks.foldlM (makeMpiRank S source) g = .ok g') :
    ranks.Pairwise fun i j : Fin source.nbproc => ∀ u v, g'.lookup (mpiRankId i) = some u →
      g'.lookup (mpiRankId j) = some v → u < v := by
  induction ranks generalizing φ g T with
  | nil => exact .nil
  | cons i ranks ih =>
      obtain ⟨hi, hnodup⟩ := List.nodup_cons.mp hnodup
      rw [List.foldlM_cons] at hrun
      obtain ⟨g₁, hrun₁, hrun₂⟩ := Except.exists_of_bind hrun
      obtain ⟨φ₁, r, p, hadv₁, hok₁, -, -, -⟩ := makeMpiRank_advance h hrun₁
      obtain ⟨φ₂, place, hadv₂, -, -, -⟩ := makeMpiRanks_advance hnodup hok₁ hrun₂
      -- the vertices of the other ranks do not exist before their rounds
      have hfresh₁ : ∀ j ∈ ranks, g₁.lookup (mpiRankId j) = none := by
        intro j hj
        have hne : (j : ℕ) ≠ i := fun heq => hi (Fin.ext heq ▸ hj)
        have hnone := hfresh j (List.mem_cons_of_mem _ hj)
        rw [h.rep.ids, ← h.rep.info_eq_none_iff] at hnone
        rw [hadv₁.rep.ids, ← hadv₁.rep.info_eq_none_iff, mpiRound_info i p hne]
        exact hnone
      refine List.pairwise_cons.mpr ⟨fun j hj u v hu hv => ?_, ih hnodup hok₁ hfresh₁ hrun₂⟩
      rw [hadv₂.rep.ids] at hu hv
      have hnew := hadv₂.le_of_new hadv₁.rep (by rw [← hadv₁.rep.ids, hfresh₁ j hj]) hv
      obtain ⟨w, hw⟩ := hadv₁.rep.exists_place (k := mpiRankKey i)
        (Topology.run_info_isSome.mpr (.inr (by simp [mpiPuts, TopologyOp.putKey])))
      obtain rfl : w = u := Option.some.inj ((hadv₂.keeps _ _ hw).symm.trans hu)
      exact (hadv₁.rep.lt _ _ hw).trans_le hnew

end

/-! ### The ranks of the vertices -/

/-- The adapters of the vertex answer the rank `i`. -/
def AnswersRank (i : ℕ) (x : Vertex n) : Prop :=
  ∀ a ∈ x.mAdapters, a.mpiRank = some (UInt64.ofNat i)

/-- `get("mpi_rank")` of a vertex with adapters. -/
lemma AnswersRank.get {i : ℕ} {x : Vertex n} (h : AnswersRank i x) (hne : x.mAdapters ≠ []) :
    x.get .uint64 "mpi_rank" = some (UInt64.ofNat i) := by
  have hget : x.get .uint64 "mpi_rank" = x.mAdapters.findSome? fun a => a.mpiRank := rfl
  obtain ⟨a, as, hadapters⟩ := List.exists_cons_of_ne_nil hne
  rw [hget, hadapters, List.findSome?_cons, h a (hadapters ▸ List.mem_cons_self)]

section

variable {source : MpiSource} {i : Fin source.nbproc} {f : Vertex n → Vertex n}

/-- What `ModuleMPI` adds to the vertex of a rank answers the rank. -/
lemma AnswersRank.contribute {x : Vertex n} (h : AnswersRank i x)
    (hf : f = contributeRank i ∨ f = source.contributeMask i) : AnswersRank i (f x) := by
  intro a ha
  rcases hf with rfl | rfl
  · rcases List.mem_append.mp ha with ha | ha
    · exact h a ha
    · rw [List.mem_singleton.mp ha]
      rfl
  · rw [MpiSource.contributeMask] at ha
    cases hmask : source.localMask n i with
    | none =>
        rw [hmask] at ha
        exact h a ha
    | some mask =>
        rw [hmask] at ha
        rcases List.mem_append.mp ha with ha | ha
        · exact h a (List.mem_of_mem_dropLast ha)
        · rw [List.mem_singleton.mp ha]
          rfl

/-- The vertex of a rank keeps an adapter. -/
lemma contribute_adapters_ne_nil {x : Vertex n} (hx : x.mAdapters ≠ [])
    (hf : f = contributeRank i ∨ f = source.contributeMask i) : (f x).mAdapters ≠ [] := by
  rcases hf with rfl | rfl
  · exact List.append_ne_nil_of_right_ne_nil _ (List.cons_ne_nil _ _)
  · rw [MpiSource.contributeMask]
    cases source.localMask n i with
    | none => exact hx
    | some mask => exact List.append_ne_nil_of_right_ne_nil _ (List.cons_ne_nil _ _)

end

section

variable {sources : List ModuleSource} {source : MpiSource} {place : Fin source.nbproc → Key}

/-- Only `ModuleMPI` changes the vertices of ranks. -/
lemma put_mpiRank {i : ℕ} {f : Vertex n → Vertex n}
    (h : .put (mpiRankKey i) f ∈ sourcesOps 0 sources ++ source.ops place) :
    ∃ j : Fin source.nbproc, (j : ℕ) = i ∧
      (f = contributeRank j ∨ f = source.contributeMask j) := by
  rcases List.mem_append.mp h with h | h
  · exact absurd rfl ((sourcesOps_putKey (List.mem_filterMap.mpr ⟨_, h, rfl⟩)).notMpi i)
  · rcases MpiSource.mem_ops_put h with ⟨hostname, hk, -⟩ | ⟨j, hk, hf⟩
    · exact absurd (Key.name.inj hk) (machineId_ne_mpiRankId _ _).symm
    · exact ⟨j, (mpiRankId_inj.mp (Key.name.inj hk)).symm, hf⟩

/-- **What the vertex of a rank answers after a run.** -/
theorem Topology.get_mpiRank_run (hinit : source.initialized = true) (i : Fin source.nbproc) :
    ∃ x, (Topology.run (sourcesOps 0 sources ++ source.ops place)
        (Keyed.empty : Topology n)).info (mpiRankKey i) = some x ∧
      x.get .uint64 "mpi_rank" = some (UInt64.ofNat i) := by
  have hput : .put (mpiRankKey i) (contributeRank i) ∈
      (sourcesOps 0 sources ++ source.ops place : List (TopologyOp n)) := by
    rw [MpiSource.ops, if_pos hinit]
    refine List.mem_append_right _ (List.mem_flatMap.mpr ⟨i, List.mem_finRange i, ?_⟩)
    simp [mpiPuts]
  obtain ⟨x, hx, hne⟩ := Topology.info_of_mem (Q := fun x => x.mAdapters ≠ [])
    (T := (Keyed.empty : Topology n)) hput
    (fun x => List.append_ne_nil_of_right_ne_nil _ (List.cons_ne_nil _ _)) fun f hf x hx => by
      obtain ⟨j, -, hf⟩ := put_mpiRank hf
      exact contribute_adapters_ne_nil hx hf
  have hanswers := Topology.info_run
    (P := fun k x => ∀ i, k = mpiRankKey i → AnswersRank i x) (fun k f hf x hx i hk => by
      subst hk
      obtain ⟨j, rfl, hcontribute⟩ := put_mpiRank hf
      refine AnswersRank.contribute ?_ hcontribute
      rcases hx with rfl | hx
      · exact fun a ha => by cases ha
      · exact hx j rfl) (fun k x hx => by cases hx) _ x hx i rfl
  exact ⟨x, hx, hanswers.get hne⟩

end

/-! ### The distances -/

section

variable {g : Graph n} {m : ℕ} {vertexOf : Fin m → VertexT}

/-- **Numbers of hops in a reversible graph.** -/
theorem Graph.Reversible.hopMetric (h : g.Reversible)
    (hends : ∀ e ∈ g.edges, e.target < g.numVertices) (hinj : Function.Injective vertexOf)
    (hlt : ∀ i, vertexOf i < g.numVertices) :
    g.HopMetric vertexOf fun i j => (bfsDistances g (vertexOf i)).getD (vertexOf j) 0 := by
  have hshortest : ∀ i j p, g.ShortestPath (vertexOf i) p (vertexOf j) →
      (bfsDistances g (vertexOf i)).getD (vertexOf j) 0 = p.length := by
    intro i j p hp
    rw [List.getD_eq_getElem?_getD, bfsDistances_of_shortestPath hends (hlt i) (hlt j) hp,
      Option.getD_some]
  have hpath : ∀ i j p, g.Path (vertexOf i) p (vertexOf j) →
      ∃ q, g.ShortestPath (vertexOf i) q (vertexOf j) ∧ q.length ≤ p.length := by
    intro i j p hp
    rcases bfsDistances_spec hends (hlt i) (hlt j) with ⟨q, hq, -⟩ | ⟨hnone, -⟩
    · exact ⟨q, hq, hq.2 p hp⟩
    · exact absurd hp (hnone p)
  refine ⟨hshortest, fun i j => ?_, fun i j => ?_, fun i j k p q hp hq => ?_⟩
  · rcases bfsDistances_spec hends (hlt i) (hlt j) with ⟨p, hp, -⟩ | ⟨hnone, hzero⟩
    · rw [hshortest i j p hp, Int.natCast_eq_zero, List.length_eq_zero_iff, or_iff_left]
      · constructor
        · rintro rfl
          exact hinj (hp.1.end_unique .nil).symm
        · rintro rfl
          exact List.length_eq_zero_iff.mp (Nat.le_zero.mp (hp.2 [] .nil))
      · exact fun hnone => hnone p hp.1
    · rw [List.getD_eq_getElem?_getD, hzero, Option.getD_some]
      exact iff_of_true rfl (.inr hnone)
  · rw [List.getD_eq_getElem?_getD, List.getD_eq_getElem?_getD,
      bfsDistances_comm h hends (hlt i) (hlt j)]
  · obtain ⟨p', hp', -⟩ := hpath i j p hp
    obtain ⟨q', hq', -⟩ := hpath j k q hq
    obtain ⟨r, hr, hle⟩ := hpath i k (p' ++ q') (hp'.1.append hq'.1)
    rw [hshortest i j p' hp', hshortest j k q' hq', hshortest i k r hr]
    rw [List.length_append] at hle
    exact_mod_cast hle

/-- What `main` writes when the view consists of the vertices `vertexOf`, which answer the
ranks. -/
lemma rankDistances_eq (hview : (g.typeView .mpiProcess).vertexRange = List.ofFn vertexOf)
    (hrank : ∀ i, (g.vertex (vertexOf i)).get .uint64 "mpi_rank" = some (UInt64.ofNat i)) :
    rankDistances g = .ok (List.ofFn fun i : Fin m => ⟨UInt64.ofNat i, List.ofFn fun j : Fin m =>
      (UInt64.ofNat j, (bfsDistances g (vertexOf i)).getD (vertexOf j) 0)⟩) := by
  have hvalue : ∀ i, g.mpiRankValue (vertexOf i) = .ok (UInt64.ofNat i) := by
    intro i
    rw [Graph.mpiRankValue, hrank]
  -- no lookup of a rank fails
  have hmapM : ∀ {β : Type} (f : VertexT → Except Abort β) (h : Fin m → β),
      (∀ i, f (vertexOf i) = .ok (h i)) → (List.ofFn vertexOf).mapM f = .ok (List.ofFn h) := by
    intro β f h hf
    rw [List.ofFn_eq_map, List.mapM_map, show f ∘ vertexOf = fun i => pure (h i) from funext hf,
      List.mapM_pure, List.ofFn_eq_map]
    rfl
  rw [rankDistances]
  simp only [hview]
  refine hmapM _ _ fun i => ?_
  rw [Graph.distancesFrom, hvalue i, hview]
  change Except.bind ((List.ofFn vertexOf).mapM _) _ = _
  rw [hmapM _ (fun j => (UInt64.ofNat j, (bfsDistances g (vertexOf i)).getD (vertexOf j) 0))
    fun j => by rw [hvalue j]; rfl]
  rfl

end

/-! ### After `init` -/

section

variable {sources : List ModuleSource} {source : MpiSource} {place : Fin source.nbproc → Key}
  {φ : Key → Option VertexT} {g : Graph n}

/-- An MPI process is a rank that `ModuleMPI` has added. -/
lemma Represents.rank_of_mpiProcess
    (h : Represents φ g (Topology.run (sourcesOps 0 sources ++ source.ops place) Keyed.empty))
    {v : VertexT} (hv : v ∈ (g.typeView .mpiProcess).vertexRange) :
    ∃ i : Fin source.nbproc, φ (mpiRankKey i) = some v := by
  obtain ⟨hlt, htype⟩ := Graph.mem_typeView.mp hv
  obtain ⟨k, hk⟩ := h.surj v hlt
  obtain ⟨i, rfl⟩ := (Topology.typeAt_run (h.info_vertex hk)).rank_of_mpiProcess htype
  have hsome : ((Topology.run (sourcesOps 0 sources ++ source.ops place)
      (Keyed.empty : Topology n)).info (mpiRankKey i)).isSome := by
    rw [h.info_vertex hk]
    rfl
  rw [Topology.run_info_isSome] at hsome
  rcases hsome with hsome | hput
  · cases hsome
  · obtain ⟨op, hop, hkey⟩ := List.mem_filterMap.mp hput
    cases op with
    | put k f =>
        obtain rfl := Option.some.inj hkey
        obtain ⟨j, rfl, -⟩ := put_mpiRank hop
        exact ⟨j, hk⟩
    | _ => cases hkey

/-- **The view of the MPI processes** consists of the vertices of the ranks, in order. -/
theorem rankVertices_eq {S : StdSort VertexT} (hfirst : ∀ m ∈ sources, m.IsFirst)
    (hinit : source.initialized = true)
    (hrun : runSources S (sources ++ [.mpi source]) ({} : Graph n) = .ok g) :
    ∃ vertexOf : Fin source.nbproc → VertexT, StrictMono vertexOf ∧
      (∀ i : Fin source.nbproc, g.lookup (mpiRankId i) = some (vertexOf i)) ∧
      (∀ i, (g.vertex (vertexOf i)).get .uint64 "mpi_rank" = some (UInt64.ofNat i)) ∧
      (g.typeView .mpiProcess).vertexRange = List.ofFn vertexOf := by
  obtain ⟨φ, φ', g₀, place, hrep, hsources, hroot, hadv, hok, -, -⟩ := runMpi_advance hfirst hrun
  obtain ⟨status, hmpi⟩ := initGraph_of_runMpi hrun hsources
  have hrank : ∀ i : Fin source.nbproc, ∃ v, φ' (mpiRankKey i) = some v ∧
      (g.vertex v).get .uint64 "mpi_rank" = some (UInt64.ofNat i) := by
    intro i
    obtain ⟨x, hx, hget⟩ : ∃ x, (Topology.run (sourcesOps 0 sources ++ source.ops place)
        (Keyed.empty : Topology n)).info (mpiRankKey i) = some x ∧
          x.get .uint64 "mpi_rank" = some (UInt64.ofNat i) := Topology.get_mpiRank_run hinit i
    obtain ⟨v, hv⟩ := hadv.rep.exists_place (Option.isSome_iff_exists.mpr ⟨x, hx⟩)
    obtain rfl : x = g.vertex v := Option.some.inj (hx.symm.trans (hadv.rep.info_vertex hv))
    exact ⟨v, hv, hget⟩
  choose vertexOf hvertexOf hget using hrank
  have hlookup : ∀ i : Fin source.nbproc, g.lookup (mpiRankId i) = some (vertexOf i) := fun i =>
    (hadv.rep.ids _).trans (hvertexOf i)
  have hmono : StrictMono vertexOf := by
    rw [MpiSource.initGraph_eq, if_pos hinit] at hmpi
    obtain ⟨g₁, hloop, heq⟩ := Except.exists_of_map hmpi
    obtain rfl : g₁ = g := (Prod.mk.inj heq).2
    have hpairwise := makeMpiRanks_pairwise (List.nodup_finRange _) (mpiOk_sources hrep hroot)
      (fun i _ => by
        rw [hrep.ids, hrep.info_eq_none_iff.mp (sourcesOps_info_mpi sources 0 i)]) hloop
    intro i j hij
    exact List.pairwise_ofFn.mp hpairwise hij _ _ (hlookup i) (hlookup j)
  refine ⟨vertexOf, hmono, hlookup, hget, ?_⟩
  refine List.Pairwise.eq_of_mem_iff (List.pairwise_lt_range.filter _)
    (List.pairwise_ofFn.mpr fun i j hij => hmono hij) fun v => ?_
  rw [List.mem_ofFn]
  constructor
  · intro hv
    obtain ⟨i, hi⟩ := hadv.rep.rank_of_mpiProcess hv
    exact ⟨i, Option.some.inj ((hvertexOf i).symm.trans hi)⟩
  · rintro ⟨i, rfl⟩
    refine Graph.mem_typeView.mpr ⟨hadv.rep.lt _ _ (hvertexOf i), ?_⟩
    rw [hok.leaves.type i _ (hadv.rep.info_vertex (hvertexOf i))]
    rfl

end

/-- **The distances between all ranks**: after `init` with MPI, rank 0 writes every rank with
its distances to every rank, in order, and no lookup of a rank fails. The distances are a
metric on ranks that are connected, and zero for two ranks that are not. -/
theorem rankDistances_init (S : StdSort VertexT) (S' : StdSort Module) {modules : List Module}
    (hkinds : (modules.map fun m => m.source.kind).Nodup) {source : MpiSource}
    (hmpi : ⟨.mpi source, true⟩ ∈ modules) (hinit : source.initialized = true)
    {status : YlocStatus} {g : Graph n}
    (hrun : init S S' modules ({} : Graph n) = .ok (status, g)) :
    ∃ vertexOf : Fin source.nbproc → VertexT, ∃ hops : Fin source.nbproc → Fin source.nbproc → ℤ,
      StrictMono vertexOf ∧
      (∀ i : Fin source.nbproc, g.lookup (mpiRankId i) = some (vertexOf i)) ∧
      rankDistances g = .ok (List.ofFn fun i : Fin source.nbproc => ⟨UInt64.ofNat i,
        List.ofFn fun j : Fin source.nbproc => (UInt64.ofNat j, hops i j)⟩) ∧
      g.HopMetric vertexOf hops := by
  obtain ⟨sources, source', hrun, hfirst, -, -, hunique⟩ := exists_runMpi_of_init hkinds hrun
  obtain rfl := hunique source hmpi
  obtain ⟨vertexOf, hmono, hlookup, hget, hview⟩ := rankVertices_eq hfirst hinit hrun
  obtain ⟨φ, φ', g₀, place, -, -, -, hadv, -, -, -⟩ := runMpi_advance hfirst hrun
  have hends : ∀ e ∈ g.edges, e.target < g.numVertices := fun e he =>
    (hadv.rep.wellFormed.ends e he).2
  have hrev : g.Reversible :=
    hadv.rep.reversible (Topology.reversible_run _ fun e he => by cases he)
  have hlt : ∀ i, vertexOf i < g.numVertices := by
    intro i
    have hi := hlookup i
    rw [hadv.rep.ids] at hi
    exact hadv.rep.lt _ _ hi
  exact ⟨vertexOf, _, hmono, hlookup, rankDistances_eq hview hget,
    hrev.hopMetric hends hmono.injective hlt⟩

/-- The two ranks of `gpuModules`. -/
theorem rankDistances_init_gpuModules : ∃ g : Graph 2,
    init .insertion .insertion gpuModules {} = .ok (.success, g) ∧
    ∃ vertexOf : Fin 2 → VertexT, ∃ hops : Fin 2 → Fin 2 → ℤ, StrictMono vertexOf ∧
      (∀ i : Fin 2, g.lookup (mpiRankId i) = some (vertexOf i)) ∧
      rankDistances g = .ok (List.ofFn fun i : Fin 2 => ⟨UInt64.ofNat i,
        List.ofFn fun j : Fin 2 => (UInt64.ofNat j, hops i j)⟩) ∧
      g.HopMetric vertexOf hops := by
  obtain ⟨g, hinit⟩ := gpuModules_init
  have hmpi : ⟨.mpi twoRanks, true⟩ ∈ gpuModules := List.mem_cons_self
  exact ⟨g, hinit, rankDistances_init .insertion .insertion (by decide) hmpi rfl hinit⟩

end Yloc
