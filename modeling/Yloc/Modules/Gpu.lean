import Yloc.Topology

/-!
The interconnects of GPUs, which `modules/rocm` and `modules/nvml` add alike.

`gpuInterconnect linked` is the pair of loops over the devices: for every two
devices that are linked it adds an edge in each direction and counts the link.
`peerOps` is what it does to the topology, and `gpuInterconnect_advance`
connects the two.

The modules name what the headers do not declare: `g[vd].type` is read as `m_type`, and
`edge_type::YLOC_GPU_INTERCONNECT` as `GPU_INTERCONNECT`.
-/

namespace Yloc

variable {n : ℕ}

/-- The body of the inner loop for the devices `src` and `dst`, given by their
vertices and indices; the state counts the interconnects. -/
def linkDevices (linked : ℕ → ℕ → Bool) (src : VertexT × ℕ) (state : ℕ × Graph n)
    (dst : VertexT × ℕ) : ℕ × Graph n :=
  if linked src.2 dst.2 then
    (state.1 + 1,
      (state.2.addEdge src.1 dst.1 .gpuInterconnect).addEdge dst.1 src.1 .gpuInterconnect)
  else state

/-- The loop over the first device, whose body is the loop over the devices after it. -/
def gpuInterconnect (linked : ℕ → ℕ → Bool) :
    List (VertexT × ℕ) → ℕ × Graph n → ℕ × Graph n
  | [], state => state
  | src :: rest, state => gpuInterconnect linked rest (rest.foldl (linkDevices linked src) state)

/-- The operations of the inner loop. -/
def peerOpsFrom (linked : ℕ → ℕ → Bool) (src : Key × ℕ) (rest : List (Key × ℕ)) :
    List (TopologyOp n) :=
  (rest.filter fun dst => linked src.2 dst.2).map fun dst => .peer src.1 dst.1

/-- The operations of the loops, for the keys of the devices. -/
def peerOps (linked : ℕ → ℕ → Bool) : List (Key × ℕ) → List (TopologyOp n)
  | [] => []
  | src :: rest => peerOpsFrom linked src rest ++ peerOps linked rest

/-- Only interconnects are added. -/
lemma mem_peerOps {linked : ℕ → ℕ → Bool} {keys : List (Key × ℕ)} {op : TopologyOp n}
    (h : op ∈ peerOps linked keys) :
    ∃ a ∈ keys, ∃ b ∈ keys, op = .peer a.1 b.1 := by
  induction keys with
  | nil => cases h
  | cons src rest ih =>
      rcases List.mem_append.mp h with h | h
      · obtain ⟨dst, hdst, rfl⟩ := List.mem_map.mp h
        exact ⟨src, by simp, dst, List.mem_cons_of_mem _ (List.mem_of_mem_filter hdst), rfl⟩
      · obtain ⟨a, ha, b, hb, rfl⟩ := ih h
        exact ⟨a, List.mem_cons_of_mem _ ha, b, List.mem_cons_of_mem _ hb, rfl⟩

section

variable {φ : Key → Option VertexT} {T : Topology n}

/-- The vertex and the key of a device belong together. -/
def SameDevice (φ : Key → Option VertexT) (v : VertexT × ℕ) (k : Key × ℕ) : Prop :=
  φ k.1 = some v.1 ∧ v.2 = k.2

/-- Vertices and keys that belong together, numbered. -/
lemma sameDevice_zipIdx {vertices : List VertexT} {keys : List Key}
    (h : List.Forall₂ (fun v k => φ k = some v) vertices keys) (i : ℕ) :
    List.Forall₂ (SameDevice φ) (vertices.zipIdx i) (keys.zipIdx i) := by
  induction h generalizing i with
  | nil => exact .nil
  | cons hv _ ih => exact .cons ⟨hv, rfl⟩ (ih (i + 1))

/-- A vertex more, after which the others are where they were. -/
lemma forall₂_concat {φ' : Key → Option VertexT} {vertices : List VertexT} {keys : List Key}
    (h : List.Forall₂ (fun v k => φ k = some v) vertices keys) (hext : Extends φ φ') {k : Key}
    {vd : VertexT} (hvd : φ' k = some vd) :
    List.Forall₂ (fun v k => φ' k = some v) (vertices ++ [vd]) (keys ++ [k]) :=
  List.rel_append (h.imp fun v k hk => hext k v hk) (.cons hvd .nil)

/-- The inner loop. -/
lemma linkDevices_advance (linked : ℕ → ℕ → Bool) {src : VertexT × ℕ} {k : Key × ℕ}
    (hsrc : SameDevice φ src k) {rest : List (VertexT × ℕ)} {keys : List (Key × ℕ)}
    (hrest : List.Forall₂ (SameDevice φ) rest keys) (state : ℕ × Graph n)
    (h : Represents φ state.2 T) :
    Advance φ state.2 φ (rest.foldl (linkDevices linked src) state).2
      (T.run (peerOpsFrom linked k keys)) := by
  induction hrest generalizing state T with
  | nil => exact .refl h
  | @cons dst key rest keys hdst _ ih =>
      rw [List.foldl_cons, linkDevices, peerOpsFrom, List.filter_cons, ← hsrc.2, ← hdst.2]
      cases hlinked : linked src.2 dst.2 with
      | false => simpa [hlinked, peerOpsFrom, hsrc.2] using ih state h
      | true =>
          have hpeer := h.peer hsrc.1 hdst.1
          have hrest := ih (state.1 + 1, (state.2.addEdge src.1 dst.1
            .gpuInterconnect).addEdge dst.1 src.1 .gpuInterconnect) hpeer.rep
          simpa [hlinked, peerOpsFrom, hsrc.2, TopologyOp.act] using hpeer.trans hrest

/-- **The loops make the changes of `peerOps`.** -/
theorem gpuInterconnect_advance (linked : ℕ → ℕ → Bool) {vertices : List (VertexT × ℕ)}
    {keys : List (Key × ℕ)} (hkeys : List.Forall₂ (SameDevice φ) vertices keys)
    (state : ℕ × Graph n) (h : Represents φ state.2 T) :
    Advance φ state.2 φ (gpuInterconnect linked vertices state).2
      (T.run (peerOps linked keys)) := by
  induction hkeys generalizing state T with
  | nil => exact .refl h
  | cons hsrc hrest ih =>
      have hadv := linkDevices_advance linked hsrc hrest state h
      rw [gpuInterconnect, peerOps, Topology.run, runOps_append]
      exact hadv.trans (ih _ hadv.rep)

end

end Yloc
