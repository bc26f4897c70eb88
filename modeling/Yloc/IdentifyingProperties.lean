import Yloc.DotFile
import Yloc.Growth
import Yloc.PciUnification

/-!
What a vertex answers for a property that identifies it.

A bdfid is part of an identifier and the value of a property, and so is the number of an MPI
process. The modules keep the two together: `Graph.Named` holds of the empty graph, and
every step of every module keeps it. So the value of the property leads back to the vertex
by its identifier, also in a program that runs `init` several times.

* `printProperty`: `print_property`.
* `Graph.Step.named`: a step keeps the two together.
* `ModuleSource.answers`: every device that answers for its bdfid is found under it.
* `init_named`: both after a run of `init`.
-/

namespace Yloc

variable {n : ℕ}

/-- `print_property`. -/
def printProperty (g : Graph n) (d : VertexT) (property : String) : String :=
  property ++ "=" ++
    match (g.vertex d).getString property with
    | some p => p ++ "\n"
    | none => "has no value\n"

/-- The bdfids that the devices of a module answer. -/
def ModuleSource.answeredBdfids : ModuleSource → List UInt64
  | hwloc source =>
      if source.checkHwlocApiVersion = .success then
        source.children.objects.filterMap source.api.bdfid
      else []
  | rocm source => source.devices.filterMap RocmDevice.pciId
  | nvml source => source.devices.filterMap fun device => device.pciInfo.map bdfidGet
  | _ => []

namespace Graph

/-- The graph is in order, and an adapter that answers for a device or a process is at the
vertex of its identifier. -/
structure Named (g : Graph n) : Prop where
  wellFormed : g.WellFormed
  adapter : ∀ v, ∀ a ∈ (g.vertex v).mAdapters,
    a.Anonymous ∨ ∃ id, g.lookup id = some v ∧ a.Fits id

section

variable {g g' : Graph n} {ids : List Identifier} {objects : List (Vertex n)}

lemma Named.empty : ({} : Graph n).Named where
  wellFormed := Represents.empty.wellFormed
  adapter _ _ ha := by cases ha

/-! ### One step -/

/-- Adapters that were there stay where they belong. -/
lemma Named.of_grows (hg : g.Named) (h : g.Grows g') {v : VertexT} {a : Adapter n}
    (ha : a ∈ (g.vertex v).mAdapters) :
    a.Anonymous ∨ ∃ id, g'.lookup id = some v ∧ a.Fits id :=
  (hg.adapter v a ha).imp_right fun ⟨id, hid, hfits⟩ => ⟨id, h.lookup id v hid, hfits⟩

/-- The vertex that is added is the last one. -/
lemma addObject_vertex_cases (g : Graph n) (x : Vertex n) (v : VertexT) :
    (g.addObject x).vertex v = g.vertex v ∨ (g.addObject x).vertex v = x := by
  rcases lt_trichotomy v g.numVertices with hv | rfl | hv
  · exact .inl (addObject_vertex g x hv)
  · exact .inr (by simp [vertex, Graph.addObject, numVertices])
  · left
    rw [vertex_of_le g hv.le, vertex_of_le]
    rw [addObject_numVertices]
    exact hv

/-- **A step keeps the adapters where they belong.** -/
theorem Step.named (h : g.Step ids objects g') (hg : g.Named) : g'.Named := by
  refine ⟨h.wellFormed hg.wellFormed, fun v a ha => ?_⟩
  have hgrows := h.grows
  cases h with
  | @addObject x hx =>
      rcases g.addObject_vertex_cases x v with hv | hv
      · exact hg.of_grows hgrows (hv ▸ ha)
      · exact .inl (hx a (hv ▸ ha))
  | addVertexId id =>
      have hold : a ∈ (g.vertex v).mAdapters := by
        rcases g.addVertexId_cases id with ⟨vd, -, heq⟩ | ⟨-, heq⟩
        · rwa [heq] at ha
        · rw [heq] at ha
          rcases g.addObject_vertex_cases {} v with hv | hv
          · exact hv ▸ ha
          · have hnew : a ∈ ((g.addObject {}).vertex v).mAdapters := ha
            rw [hv] at hnew
            cases hnew
      exact hg.of_grows hgrows hold
  | @modify id vd hvd f hf =>
      by_cases hv : v = vd
      · obtain ⟨a', hfits, hadds⟩ := hf.adapter
        rw [hv, modify_vertex_self (hg.wellFormed.bound id vd hvd), hadds] at ha
        rcases List.mem_append.mp ha with ha | ha
        · exact hg.of_grows hgrows (hv ▸ ha)
        · rw [List.mem_singleton.mp ha, hv]
          exact .inr ⟨id, hvd, hfits⟩
      · rw [modify_vertex_of_ne g hv] at ha
        exact hg.of_grows hgrows ha
  | addEdges => exact hg.of_grows hgrows ha
  | setRootVertex => exact hg.of_grows hgrows ha

lemma Steps.named (h : g.Steps ids objects g') (hg : g.Named) : g'.Named := by
  induction h with
  | refl => exact hg
  | tail _ hstep ih => exact hstep.named ih

/-! ### What a vertex answers -/

/-- The bdfid leads back to the vertex. -/
lemma Named.lookup_of_bdfid (hg : g.Named) {v : VertexT} {b : UInt64}
    (hb : (g.vertex v).get .uint64 "bdfid" = some b) : g.lookup (bdfidId b) = some v := by
  have hfind : (g.vertex v).mAdapters.findSome? (fun a => a.bdfid) = some b := hb
  obtain ⟨l₁, a, l₂, hl, ha, -⟩ := List.findSome?_eq_some_iff.mp hfind
  rcases hg.adapter v a (by rw [hl]; simp) with hnone | ⟨id, hid, hfits⟩
  · rw [hnone.1] at ha
    cases ha
  · rwa [hfits.bdfid b ha] at hid

/-- So does the number of a process. -/
lemma Named.lookup_of_mpiRank (hg : g.Named) {v : VertexT} {r : UInt64}
    (hr : (g.vertex v).get .uint64 "mpi_rank" = some r) :
    ∃ i : ℕ, r = UInt64.ofNat i ∧ g.lookup (mpiRankId i) = some v := by
  have hfind : (g.vertex v).mAdapters.findSome? (fun a => a.mpiRank) = some r := hr
  obtain ⟨l₁, a, l₂, hl, ha, -⟩ := List.findSome?_eq_some_iff.mp hfind
  rcases hg.adapter v a (by rw [hl]; simp) with hnone | ⟨id, hid, hfits⟩
  · rw [hnone.2] at ha
    cases ha
  · obtain ⟨i, hi, rfl⟩ := hfits.mpiRank r ha
    exact ⟨i, hi, hid⟩

/-- The vertex of a bdfid has an adapter that answers it. -/
def Answers (g : Graph n) (b : UInt64) : Prop :=
  ∃ v, g.lookup (bdfidId b) = some v ∧ ∃ a ∈ (g.vertex v).mAdapters, a.bdfid = some b

lemma Answers.of_grows {b : UInt64} (hb : g.Answers b) (h : g.Grows g') : g'.Answers b := by
  obtain ⟨v, hv, a, ha, hab⟩ := hb
  exact ⟨v, h.lookup _ v hv, a, (h.adapters v).subset ha, hab⟩

/-- Then the vertex answers it. -/
lemma Named.get_of_answers (hg : g.Named) {b : UInt64} (hb : g.Answers b) :
    ∃ v, g.lookup (bdfidId b) = some v ∧ (g.vertex v).get .uint64 "bdfid" = some b := by
  obtain ⟨v, hv, a, ha, hab⟩ := hb
  refine ⟨v, hv, ?_⟩
  cases hget : (g.vertex v).get .uint64 "bdfid" with
  | none =>
      have hfind : (g.vertex v).mAdapters.findSome? (fun a => a.bdfid) = none := hget
      rw [List.findSome?_eq_none_iff.mp hfind a ha] at hab
      cases hab
  | some b' =>
      -- no other bdfid leads to the vertex
      have hid := hg.wellFormed.inj _ _ _ (hg.lookup_of_bdfid hget) hv
      exact congrArg some (bdfidId_inj.mp hid)

end

end Graph

/-! ### The devices of a module -/

section

variable {g g' : Graph n}

/-- A device that answers goes to its own key, whatever `bdfid` has held before. -/
lemma put_mem_rocmPuts {bdfid b : UInt64} {devices : List (RocmDevice × ℕ)}
    {device : RocmDevice × ℕ} (hdevice : device ∈ devices) (hb : device.1.pciId = some b) :
    .put (bdfidKey b) (contributeRocm device.1 device.2) ∈
      (rocmPuts bdfid devices : List (TopologyOp n)) := by
  induction devices generalizing bdfid with
  | nil => cases hdevice
  | cons device' devices ih =>
      rw [rocmPuts]
      rcases List.mem_cons.mp hdevice with rfl | hdevice
      · rw [hb, Option.getD_some]
        exact List.mem_cons_self
      · exact List.mem_cons_of_mem _ (ih hdevice)

/-- The operations of a module put an adapter that answers on the key of each bdfid. -/
lemma ModuleSource.exists_put_bdfid {source : ModuleSource} {b : UInt64}
    (hb : b ∈ source.answeredBdfids) (s : ℕ) :
    ∃ (f : Vertex n → Vertex n) (a : Adapter n), .put (bdfidKey b) f ∈ source.ops s ∧
      a.bdfid = some b ∧ ∀ x, a ∈ (f x).mAdapters := by
  cases source with
  | hwloc source =>
      rw [answeredBdfids] at hb
      split at hb
      · next hversion =>
          obtain ⟨obj, hobj, hbdfid⟩ := List.mem_filterMap.mp hb
          have hpci : obj.type = .pciDevice := by
            by_contra hpci
            rw [HwlocApi.bdfid, if_neg fun h => hpci (HwlocApi.sameType_iff.mp h)] at hbdfid
            cases hbdfid
          obtain ⟨i, hi⟩ := List.getElem?_of_mem hobj
          have hput := source.api.put_mem_hwlocOps (n := n) hi s (machineKey source.hostname)
          rw [HwlocApi.hwlocKey_of_bdfid hpci hbdfid] at hput
          refine ⟨source.api.contribute obj, source.api.hwlocAdapter n obj, ?_, hbdfid,
            fun x => ?_⟩
          · rw [ops, if_pos hversion]
            exact List.mem_cons_of_mem _ hput
          · simp [HwlocApi.contribute]
      · cases hb
  | rocm source =>
      obtain ⟨device, hdevice, hbdfid⟩ := List.mem_filterMap.mp hb
      obtain ⟨i, hi⟩ := List.getElem?_of_mem hdevice
      refine ⟨contributeRocm device i, rocmAdapter n device i, List.mem_append_left _ ?_, hbdfid,
        fun x => by simp [contributeRocm]⟩
      exact put_mem_rocmPuts (List.mk_mem_zipIdx_iff_getElem?.mpr hi) hbdfid
  | nvml source =>
      obtain ⟨device, hdevice, hbdfid⟩ := List.mem_filterMap.mp hb
      refine ⟨contributeNvml device, nvmlAdapter n device, List.mem_append_left _ ?_, hbdfid,
        fun x => by simp [contributeNvml]⟩
      obtain ⟨pci, hpci, rfl⟩ := Option.map_eq_some_iff.mp hbdfid
      refine List.mem_filterMap.mpr ⟨device, hdevice, ?_⟩
      rw [nvmlKey, hpci]
      rfl
  | _ => cases hb

/-- **A module that returns has its devices answer.** -/
theorem ModuleSource.answers (hg : g.WellFormed) {S : StdSort VertexT} {source : ModuleSource}
    {status : YlocStatus} (hrun : source.initGraph S g = .ok (status, g')) {b : UInt64}
    (hb : b ∈ source.answeredBdfids) : g'.Answers b := by
  have hfirst : source.IsFirst := by
    cases source with
    | mpi source => cases hb
    | nvml source => exact NvmlSource.pciInfo_of_initGraph hrun
    | _ => exact trivial
  obtain ⟨φ, T, hrep, hfresh⟩ := exists_represents hg
  obtain ⟨φ', status', g'', hrun', hrep', -, -⟩ :=
    source.initGraph_represents S hfirst hrep hfresh
  obtain rfl : g'' = g' := (Prod.mk.inj (Except.ok.inj (hrun'.symm.trans hrun))).2
  obtain ⟨f, a, hput, hab, hadds⟩ := exists_put_bdfid (n := n) hb g.numVertices
  obtain ⟨x, hx, ha⟩ := Topology.adapter_of_mem (T := T) (fun op hop => ⟨source, _, hop⟩) hput hadds
  obtain ⟨v, hv⟩ := hrep'.exists_place (Option.isSome_iff_exists.mpr ⟨x, hx⟩)
  refine ⟨v, (hrep'.ids _).trans hv, a, ?_, hab⟩
  rwa [← Option.some.inj (hx.symm.trans (hrep'.info_vertex hv))]

/-- The devices of all modules of a run. -/
lemma answers_of_runSources (hg : g.WellFormed) {S : StdSort VertexT}
    {sources : List ModuleSource} (hrun : runSources S sources g = .ok g')
    {source : ModuleSource} (hmem : source ∈ sources) {b : UInt64}
    (hb : b ∈ source.answeredBdfids) : g'.Answers b := by
  induction sources generalizing g with
  | nil => cases hmem
  | cons source' sources ih =>
      rw [runSources_cons] at hrun
      obtain ⟨g₁, hround, hrest⟩ := Except.exists_of_bind hrun
      obtain ⟨⟨status, g₂⟩, hsource, rfl⟩ := Except.exists_of_map hround
      have hg₂ := (ModuleSource.initGraph_steps hg hsource).wellFormed hg
      rcases List.mem_cons.mp hmem with rfl | hmem
      · exact (ModuleSource.answers hg hsource hb).of_grows (runSources_steps hg₂ hrest).grows
      · exact ih hg₂ hrest hmem

end

/-! ### What is printed -/

/-- The bdfid is printed in decimal. -/
lemma getString_bdfid (v : Vertex n) :
    v.getString "bdfid" = (v.get .uint64 "bdfid").map fun b : UInt64 => toString b :=
  getString_of_lookup (p := .ofUInt64 Adapter.Values.bdfid) rfl

/-- No number reads as the text for a missing value. -/
lemma toString_ne_noValue (b : UInt64) : toString b ++ "\n" ≠ "has no value\n" := by
  intro h
  have hlist : (toString b.toNat).toList ++ ['\n'] = 'h' :: "as no value\n".toList := by
    have hbytes := String.toList_inj.mpr h
    rwa [String.toList_append] at hbytes
  cases hdigits : (toString b.toNat).toList with
  | nil =>
      rw [hdigits] at hlist
      exact absurd (List.cons.inj hlist).1 (by decide)
  | cons c cs =>
      rw [hdigits] at hlist
      have hc := isDigit_of_mem_toString (hdigits ▸ List.mem_cons_self)
      rw [(List.cons.inj hlist).1] at hc
      exact absurd hc (by decide)

/-- The line of a bdfid tells the bdfid. -/
lemma printProperty_bdfid_inj {g : Graph n} {v w : VertexT} {b : UInt64}
    (hb : (g.vertex v).get .uint64 "bdfid" = some b)
    (h : printProperty g v "bdfid" = printProperty g w "bdfid") :
    (g.vertex w).get .uint64 "bdfid" = some b := by
  rw [printProperty, printProperty, String.append_right_inj, getString_bdfid, getString_bdfid,
    hb] at h
  cases hw : (g.vertex w).get .uint64 "bdfid" with
  | none =>
      rw [hw] at h
      exact absurd h (toString_ne_noValue b)
  | some b' =>
      rw [hw] at h
      have hnat := natToString_injective ((String.append_left_inj "\n").mp h)
      exact congrArg some (UInt64.toNat_inj.mp hnat).symm

/-- **Identifiers and properties go together** after `init`, on every graph where they did
before. The value of a bdfid, and the number of a process, lead back to the vertex by the
identifier made of it, and no vertex is added. Every device that answers for its bdfid is
found under it, also one that other modules have found as well, and two vertices print the
same bdfid only if they have none. -/
theorem init_named (S : StdSort VertexT) (S' : StdSort Module) {modules : List Module}
    {g g' : Graph n} (hg : g.Named) {status : YlocStatus}
    (hrun : init S S' modules g = .ok (status, g')) :
    g'.Named ∧
    (∀ v s, (g'.vertex v).getString "bdfid" = some s → g'.addVertexId ("bdfid:" ++ s) = (v, g')) ∧
    (∀ v (r : UInt64), (g'.vertex v).get .uint64 "mpi_rank" = some r →
      ∃ i : ℕ, r = UInt64.ofNat i ∧ g'.addVertexId ("mpi_rank:" ++ toString i) = (v, g')) ∧
    (∀ source b, ⟨source, true⟩ ∈ modules → b ∈ source.answeredBdfids →
      ∃ v, g'.lookup (bdfidId b) = some v ∧ (g'.vertex v).get .uint64 "bdfid" = some b) ∧
    ∀ v w, printProperty g' v "bdfid" = printProperty g' w "bdfid" →
      v = w ∨ printProperty g' v "bdfid" = "bdfid=has no value\n" := by
  have hg' := (init_steps hg.wellFormed hrun).named hg
  refine ⟨hg', fun v s hs => ?_, fun v r hr => ?_, fun source b hmem hb => ?_, fun v w h => ?_⟩
  · rw [getString_bdfid] at hs
    obtain ⟨b, hb, rfl⟩ := Option.map_eq_some_iff.mp hs
    exact Graph.addVertexId_of_some (hg'.lookup_of_bdfid hb)
  · obtain ⟨i, hi, hid⟩ := hg'.lookup_of_mpiRank hr
    exact ⟨i, hi, Graph.addVertexId_of_some hid⟩
  · obtain ⟨g₁, hloop, heq⟩ := Except.exists_of_map hrun
    obtain ⟨-, rfl⟩ := Prod.mk.inj heq
    rw [runModules_eq] at hloop
    exact hg'.get_of_answers
      (answers_of_runSources hg.wellFormed hloop (mem_enabledSources.mpr hmem) hb)
  · cases hb : (g'.vertex v).get .uint64 "bdfid" with
    | none =>
        right
        rw [printProperty, getString_bdfid, hb]
        rfl
    | some b =>
        left
        have hid := hg'.lookup_of_bdfid (printProperty_bdfid_inj hb h)
        rw [hg'.lookup_of_bdfid hb] at hid
        exact Option.some.inj hid

/-- The first GPU of `linkedGpus` is the PCI device of `smallMachine`. -/
theorem init_named_linkedGpus : ∃ status, ∃ g' : Graph 0,
    init .insertion .insertion [⟨.rocm linkedGpus, true⟩, ⟨.hwloc smallMachine, true⟩] {} =
      .ok (status, g') ∧
    g'.Named ∧
    (∀ v s, (g'.vertex v).getString "bdfid" = some s → g'.addVertexId ("bdfid:" ++ s) = (v, g')) ∧
    ∃ v, g'.lookup (bdfidId 0x300) = some v ∧
      (g'.vertex v).get .uint64 "bdfid" = some (0x300 : UInt64) := by
  obtain ⟨⟨status, g'⟩, hrun⟩ : ∃ result, init .insertion .insertion
      [⟨.rocm linkedGpus, true⟩, ⟨.hwloc smallMachine, true⟩] ({} : Graph 0) = .ok result :=
    ⟨_, rfl⟩
  obtain ⟨hnamed, hback, -, hfound, -⟩ := init_named .insertion .insertion .empty hrun
  exact ⟨status, g', hrun, hnamed, hback, hfound (.hwloc smallMachine) 0x300 (by simp) (by decide)⟩

end Yloc
