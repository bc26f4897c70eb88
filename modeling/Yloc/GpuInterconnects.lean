import Yloc.Lib.LaterPairs
import Yloc.Modules.Rocm

/-!
The interconnects between the devices of ROCm.

The loops of `gpuInterconnect` meet every two devices once (`List.laterPairs`) and add an
edge each way where they are linked (`gpuInterconnect_eq`). `LinksDevices` says that such
edges, and no others, are what is added and counted. `yloc_rocm_gpu_interconnect` takes
devices as linked that are one hop apart, whatever the type of the link;
`gpuInterconnect_direct_iff` says when these are the direct links via XGMI.
-/

namespace Yloc

variable {n : ℕ}

/-! ### What the loops add -/

/-- The interconnects of two devices, one each way. -/
def interconnects (p : (VertexT × ℕ) × (VertexT × ℕ)) : List Edge :=
  [⟨p.1.1, p.2.1, .gpuInterconnect⟩, ⟨p.2.1, p.1.1, .gpuInterconnect⟩]

/-- The pairs of devices that are linked, as the loops meet them. -/
def linkedPairs (linked : ℕ → ℕ → Bool) (vertices : List (VertexT × ℕ)) :
    List ((VertexT × ℕ) × (VertexT × ℕ)) :=
  vertices.laterPairs.filter fun p => linked p.1.2 p.2.2

/-- The inner loop adds and counts the pairs with its device. -/
lemma foldl_linkDevices (linked : ℕ → ℕ → Bool) (src : VertexT × ℕ) (rest : List (VertexT × ℕ))
    (state : ℕ × Graph n) :
    rest.foldl (linkDevices linked src) state =
      let pairs := (rest.map (Prod.mk src)).filter fun p => linked p.1.2 p.2.2
      (state.1 + pairs.length,
        { state.2 with edges := state.2.edges ++ pairs.flatMap interconnects }) := by
  induction rest generalizing state with
  | nil => simp
  | cons dst rest ih =>
      rw [List.foldl_cons, ih, linkDevices, List.map_cons]
      cases hlinked : linked src.2 dst.2 with
      | false => simp [hlinked]
      | true =>
          simp [hlinked, interconnects, Graph.addEdge, Nat.add_assoc, Nat.add_comm]

/-- **The loops add and count every pair that is linked.** -/
theorem gpuInterconnect_eq (linked : ℕ → ℕ → Bool) (vertices : List (VertexT × ℕ))
    (state : ℕ × Graph n) :
    gpuInterconnect linked vertices state =
      (state.1 + (linkedPairs linked vertices).length,
        { state.2 with
          edges := state.2.edges ++ (linkedPairs linked vertices).flatMap interconnects }) := by
  induction vertices generalizing state with
  | nil => simp [gpuInterconnect, linkedPairs, List.laterPairs]
  | cons src rest ih =>
      rw [gpuInterconnect, foldl_linkDevices, ih, linkedPairs, linkedPairs, List.laterPairs]
      simp [Nat.add_assoc]

/-! ### Links and edges -/

/-- For each two devices that are linked an interconnect each way was added and counted,
and nothing else was done: `result` is what the loops return on the graph `g`. -/
structure LinksDevices (linked : ℕ → ℕ → Bool) (vertices : List VertexT) (g : Graph n)
    (result : ℕ × Graph n) : Prop where
  /-- Edges are added, and nothing else is changed. -/
  frame : result.2 =
    { g with edges := g.edges ++ result.2.edges.drop g.edges.length }
  /-- Linked devices get one edge each way. -/
  once : ∀ i j u v, i < j → vertices[i]? = some u → vertices[j]? = some v → linked i j = true →
    (result.2.edges.drop g.edges.length).count ⟨u, v, .gpuInterconnect⟩ = 1 ∧
      (result.2.edges.drop g.edges.length).count ⟨v, u, .gpuInterconnect⟩ = 1
  /-- Every edge added joins linked devices. -/
  only : ∀ e ∈ result.2.edges.drop g.edges.length, ∃ i j u v, i < j ∧
    vertices[i]? = some u ∧ vertices[j]? = some v ∧ linked i j = true ∧
      (e = ⟨u, v, .gpuInterconnect⟩ ∨ e = ⟨v, u, .gpuInterconnect⟩)
  /-- No edge joins a vertex to itself. -/
  noLoop : ∀ e ∈ result.2.edges.drop g.edges.length, e.source ≠ e.target
  /-- The pairs of linked devices are counted. -/
  count : result.1 = ((Finset.range vertices.length ×ˢ Finset.range vertices.length).filter
    fun p => p.1 < p.2 ∧ linked p.1 p.2 = true).card

/-- Only the links between devices matter. -/
lemma LinksDevices.congr {linked linked' : ℕ → ℕ → Bool} {vertices : List VertexT} {g : Graph n}
    {result : ℕ × Graph n} (h : LinksDevices linked vertices g result)
    (hsame : ∀ i j, i < j → j < vertices.length → linked i j = linked' i j) :
    LinksDevices linked' vertices g result where
  frame := h.frame
  once i j u v hij hu hv hlinked := by
    have hj := (List.getElem?_eq_some_iff.mp hv).1
    exact h.once i j u v hij hu hv (by rw [hsame i j hij hj, hlinked])
  only e he := by
    obtain ⟨i, j, u, v, hij, hu, hv, hlinked, hends⟩ := h.only e he
    have hj := (List.getElem?_eq_some_iff.mp hv).1
    exact ⟨i, j, u, v, hij, hu, hv, by rw [← hsame i j hij hj, hlinked], hends⟩
  noLoop := h.noLoop
  count := by
    rw [h.count]
    refine congrArg Finset.card (Finset.filter_congr ?_)
    rintro ⟨i, j⟩ hmem
    obtain ⟨-, hj⟩ := Finset.mem_product.mp hmem
    refine and_congr_right fun hij => ?_
    rw [hsame i j hij (Finset.mem_range.mp hj)]

lemma mem_interconnects {e : Edge} {linked : ℕ → ℕ → Bool} {vertices : List VertexT} :
    e ∈ (linkedPairs linked vertices.zipIdx).flatMap interconnects ↔ ∃ i j u v, i < j ∧
      vertices[i]? = some u ∧ vertices[j]? = some v ∧ linked i j = true ∧
        (e = ⟨u, v, .gpuInterconnect⟩ ∨ e = ⟨v, u, .gpuInterconnect⟩) := by
  rw [List.mem_flatMap]
  constructor
  · rintro ⟨⟨⟨u, i⟩, v, j⟩, hp, he⟩
    obtain ⟨hmem, hlinked⟩ := List.mem_filter.mp hp
    obtain ⟨hij, hu, hv⟩ := List.mem_laterPairs_zipIdx.mp hmem
    exact ⟨i, j, u, v, hij, hu, hv, hlinked, by simpa [interconnects] using he⟩
  · rintro ⟨i, j, u, v, hij, hu, hv, hlinked, he⟩
    refine ⟨((u, i), (v, j)), List.mem_filter.mpr ⟨?_, hlinked⟩, by simpa [interconnects] using he⟩
    exact List.mem_laterPairs_zipIdx.mpr ⟨hij, hu, hv⟩

section

variable {vertices : List VertexT} (hnodup : vertices.Nodup)

include hnodup

/-- Devices on different vertices are told apart by them. -/
lemma index_inj {i j : ℕ} {v : VertexT} (hi : vertices[i]? = some v) (hj : vertices[j]? = some v) :
    i = j :=
  (List.getElem?_inj (List.getElem?_eq_some_iff.mp hi).1 hnodup).mp (hi.trans hj.symm)

/-- An edge joins one pair of devices. -/
lemma pair_inj {i j i' j' : ℕ} {u v u' v' : VertexT} (hij : i < j) (hij' : i' < j')
    (hu : vertices[i]? = some u) (hv : vertices[j]? = some v) (hu' : vertices[i']? = some u')
    (hv' : vertices[j']? = some v') (he : u = u' ∧ v = v' ∨ u = v' ∧ v = u') :
    i = i' ∧ j = j' := by
  rcases he with ⟨rfl, rfl⟩ | ⟨rfl, rfl⟩
  · exact ⟨index_inj hnodup hu hu', index_inj hnodup hv hv'⟩
  · have hi := index_inj hnodup hu hv'
    have hj := index_inj hnodup hv hu'
    omega

/-- No edge is added twice. -/
lemma interconnects_nodup (linked : ℕ → ℕ → Bool) :
    ((linkedPairs linked vertices.zipIdx).flatMap interconnects).Nodup := by
  have hpairs : (linkedPairs linked vertices.zipIdx).Nodup :=
    (List.laterPairs_nodup (List.zipIdx_nodup vertices)).filter _
  refine List.nodup_flatMap.mpr ⟨?_, hpairs.imp_of_mem ?_⟩
  · rintro ⟨⟨u, i⟩, v, j⟩ hp
    obtain ⟨hij, hu, hv⟩ := List.mem_laterPairs_zipIdx.mp (List.mem_of_mem_filter hp)
    have hne : u ≠ v := by
      rintro rfl
      exact hij.ne (index_inj hnodup hu hv)
    simp [interconnects, hne]
  · rintro ⟨⟨u, i⟩, v, j⟩ ⟨⟨u', i'⟩, v', j'⟩ hp hp' hne
    obtain ⟨hij, hu, hv⟩ := List.mem_laterPairs_zipIdx.mp (List.mem_of_mem_filter hp)
    obtain ⟨hij', hu', hv'⟩ := List.mem_laterPairs_zipIdx.mp (List.mem_of_mem_filter hp')
    rw [Function.onFun, List.disjoint_left]
    intro e he he'
    refine hne ?_
    have hends : u = u' ∧ v = v' ∨ u = v' ∧ v = u' := by
      simp only [interconnects, List.mem_cons, List.not_mem_nil, or_false] at he he'
      rcases he with rfl | rfl <;> rcases he' with h | h <;> cases h <;> simp
    obtain ⟨rfl, rfl⟩ := pair_inj hnodup hij hij' hu hv hu' hv' hends
    obtain rfl := Option.some.inj (hu.symm.trans hu')
    obtain rfl := Option.some.inj (hv.symm.trans hv')
    rfl

/-- **The loops link devices on different vertices as they are asked to.** -/
theorem gpuInterconnect_linksDevices (linked : ℕ → ℕ → Bool) (g : Graph n) :
    LinksDevices linked vertices g (gpuInterconnect linked vertices.zipIdx (0, g)) := by
  rw [gpuInterconnect_eq]
  have hnew : (g.edges ++ (linkedPairs linked vertices.zipIdx).flatMap interconnects).drop
      g.edges.length = (linkedPairs linked vertices.zipIdx).flatMap interconnects :=
    List.drop_left
  have honce := interconnects_nodup hnodup linked
  refine ⟨by rw [hnew], ?_, ?_, ?_, ?_⟩
  · intro i j u v hij hu hv hlinked
    rw [hnew]
    exact ⟨List.count_eq_one_of_mem honce
        (mem_interconnects.mpr ⟨i, j, u, v, hij, hu, hv, hlinked, .inl rfl⟩),
      List.count_eq_one_of_mem honce
        (mem_interconnects.mpr ⟨i, j, u, v, hij, hu, hv, hlinked, .inr rfl⟩)⟩
  · intro e he
    rw [hnew] at he
    exact mem_interconnects.mp he
  · intro e he
    rw [hnew] at he
    obtain ⟨i, j, u, v, hij, hu, hv, -, hends⟩ := mem_interconnects.mp he
    have hne : u ≠ v := by
      rintro rfl
      exact hij.ne (index_inj hnodup hu hv)
    rcases hends with rfl | rfl
    · exact hne
    · exact hne.symm
  · rw [Nat.zero_add]
    exact List.length_filter_laterPairs_zipIdx vertices linked

end

/-! ### Direct links -/

/-- `RSMI_IO_LINK_TYPE` -/
inductive RsmiIoLinkType where
  | undefined
  | pciExpress
  | xgmi
  deriving DecidableEq, Repr

namespace RocmSource

/-- The devices are directly connected: via XGMI, one hop apart. -/
def direct (source : RocmSource) (linkType : ℕ → ℕ → RsmiIoLinkType) (src dst : ℕ) : Bool :=
  linkType src dst == .xgmi && source.hops src dst == 1

/-- **When the interconnects are the direct links via XGMI**: no link of another type is
one hop long. -/
theorem gpuInterconnect_direct_iff (source : RocmSource) (linkType : ℕ → ℕ → RsmiIoLinkType)
    {vertices : List VertexT} (hnodup : vertices.Nodup) (g : Graph n) :
    LinksDevices (source.direct linkType) vertices g (source.gpuInterconnect g vertices) ↔
      ∀ i j, i < j → j < vertices.length → source.hops i j = 1 → linkType i j = .xgmi := by
  have hlinks : LinksDevices (fun src dst => source.hops src dst == 1) vertices g
      (source.gpuInterconnect g vertices) := gpuInterconnect_linksDevices hnodup _ g
  constructor
  · intro h i j hij hj hhops
    obtain ⟨u, hu⟩ : ∃ u, vertices[i]? = some u := ⟨_, List.getElem?_eq_getElem (hij.trans hj)⟩
    obtain ⟨v, hv⟩ : ∃ v, vertices[j]? = some v := ⟨_, List.getElem?_eq_getElem hj⟩
    -- the edge that the loops add is one of a direct link, so it is that of these devices
    have hadded := (hlinks.once i j u v hij hu hv (by simp [hhops])).1
    have hmem : (⟨u, v, .gpuInterconnect⟩ : Edge) ∈
        (source.gpuInterconnect g vertices).2.edges.drop g.edges.length :=
      List.count_pos_iff.mp (by omega)
    obtain ⟨i', j', u', v', hij', hu', hv', hdirect, he⟩ := h.only _ hmem
    have hends : u = u' ∧ v = v' ∨ u = v' ∧ v = u' := by
      rcases he with he | he <;> cases he <;> simp
    obtain ⟨rfl, rfl⟩ := pair_inj hnodup hij hij' hu hv hu' hv' hends
    simp only [direct, Bool.and_eq_true, beq_iff_eq] at hdirect
    exact hdirect.1
  · intro h
    refine hlinks.congr fun i j hij hj => ?_
    cases hhops : source.hops i j == 1 with
    | false => rw [direct, hhops, Bool.and_false]
    | true =>
        rw [direct, hhops, h i j hij hj (by simpa using hhops)]
        rfl

/-- Two devices, one hop apart. -/
def oneHop : RocmSource where
  rsmiInit := true
  bdfid := 0
  devices := [{ name := "MI250", pciId := some 0x300 }, { name := "MI250", pciId := some 0x400 }]
  hops _ _ := 1

/-- With a link of XGMI the devices are linked. -/
theorem gpuInterconnect_direct_iff_oneHop :
    LinksDevices (oneHop.direct fun _ _ => .xgmi) [0, 1] ({} : Graph 1)
      (oneHop.gpuInterconnect {} [0, 1]) :=
  (gpuInterconnect_direct_iff oneHop (fun _ _ => .xgmi) (by decide) {}).mpr fun _ _ _ _ _ => rfl

/-- With a link of PCI Express they are linked, too. -/
theorem not_linksDevices_pciExpress :
    ¬ LinksDevices (oneHop.direct fun _ _ => .pciExpress) [0, 1] ({} : Graph 1)
      (oneHop.gpuInterconnect {} [0, 1]) := by
  intro h
  obtain ⟨i, j, u, v, -, -, -, hdirect, -⟩ := h.only ⟨0, 1, .gpuInterconnect⟩ (by decide)
  cases hdirect

end RocmSource

end Yloc
