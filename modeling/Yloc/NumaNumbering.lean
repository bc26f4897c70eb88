import Yloc.Modules.Nvml
import Yloc.Modules.Rocm
import Yloc.PropertyLookup

/-!
The NUMA nodes that the GPU modules report.

ROCm SMI gives the number of a node, counted from zero. NVML gives a set of nodes, of
which `NvmlAdapter::numa_affinity` takes the lowest by `ffs`, which counts bits from one
and looks at the 32 bits of an `int`. So no node is reported under its number.

* `LowestNode`, `ffs_eq`: what `ffs` makes of the lowest node of a set.
* `numaAffinity_ne_lowestNode`: the number of the node is missed, and when the answers of
  the two modules compare as the nodes do.
-/

namespace Yloc

variable {n : ℕ}

/-- The lowest NUMA node of a set is `k`. -/
structure LowestNode (nodeSet : UInt64) (k : ℕ) : Prop where
  mem : nodeSet.toNat.testBit k = true
  least : ∀ j < k, nodeSet.toNat.testBit j = false

/-- A set of nodes has a lowest one, unless it is empty. -/
lemma exists_lowestNode {nodeSet : UInt64} (hne : nodeSet ≠ 0) :
    ∃ k < 64, LowestNode nodeSet k := by
  have hbit : ∃ k, nodeSet.toNat.testBit k = true := by
    refine Nat.exists_testBit_of_ne_zero fun hzero => hne ?_
    exact UInt64.toNat_inj.mp hzero
  have hmem := Nat.find_spec hbit
  refine ⟨Nat.find hbit, ?_, hmem, fun j hj => ?_⟩
  · by_contra hlt
    have hsmall : nodeSet.toNat < 2 ^ Nat.find hbit := calc
      nodeSet.toNat < 2 ^ 64 := nodeSet.toNat_lt
      _ ≤ 2 ^ Nat.find hbit := Nat.pow_le_pow_right (by decide) (not_lt.mp hlt)
    rw [Nat.testBit_lt_two_pow hsmall] at hmem
    cases hmem
  · exact Bool.eq_false_of_not_eq_true (Nat.find_min hbit hj)

/-- What `ffs` answers for a set with the lowest node `k`. -/
def ffsAnswer (k : ℕ) : ℕ := if k < 32 then k + 1 else 0

/-- No node is answered with its number. -/
lemma ffsAnswer_ne (k : ℕ) : ffsAnswer k ≠ k := by
  rw [ffsAnswer]
  split <;> omega

lemma ffsAnswer_le (k : ℕ) : ffsAnswer k ≤ 32 := by
  rw [ffsAnswer]
  split <;> omega

/-- **`ffs` counts from one, and sees the low 32 bits.** -/
theorem ffs_eq {nodeSet : UInt64} {k : ℕ} (h : LowestNode nodeSet k) :
    ffs nodeSet = UInt64.ofNat (ffsAnswer k) := by
  rw [ffs, ffsAnswer]
  by_cases hk : k < 32
  · have hfind : (List.range 32).find? (fun i => nodeSet.toNat.testBit i) = some k := by
      rw [List.find?_range_eq_some]
      refine ⟨h.mem, List.mem_range.mpr hk, fun j hj => ?_⟩
      rw [h.least j hj]
      rfl
    rw [hfind, if_pos hk]
  · have hfind : (List.range 32).find? (fun i => nodeSet.toNat.testBit i) = none := by
      rw [List.find?_range_eq_none]
      intro j hj
      rw [h.least j (by omega)]
      rfl
    rw [hfind, if_neg hk]
    rfl

/-- `get("numa_affinity")` of a vertex whose other adapters know nothing of NUMA nodes. -/
lemma get_numaAffinity {v : Vertex n} (hv : ∀ a ∈ v.mAdapters, a.numaAffinity = none)
    (a : Adapter n) : (v.addAdapter a).get .uint64 "numa_affinity" = a.numaAffinity := by
  have hget : ∀ w : Vertex n, w.get .uint64 "numa_affinity" =
      w.mAdapters.findSome? fun a => a.numaAffinity := fun w => rfl
  rw [hget, GraphElement.addAdapter_mAdapters, List.findSome?_append,
    List.findSome?_eq_none_iff.mpr hv, Option.none_or]
  exact List.findSome?_singleton

/-- **NVML never reports the number of the lowest node**: it reports the next one, or zero
from node 32 on. Its answer compares with that of ROCm as the nodes do exactly when the
node of ROCm is neither the same nor the one that NVML reports. -/
theorem numaAffinity_ne_lowestNode {nodeSet : UInt64} (hne : nodeSet ≠ 0) {device : NvmlDevice}
    (hdevice : device.memoryAffinity = some nodeSet) :
    ∃ k < 64, LowestNode nodeSet k ∧
      (nvmlAdapter n device).numaAffinity = some (UInt64.ofNat (ffsAnswer k)) ∧
      (nvmlAdapter n device).numaAffinity ≠ some (UInt64.ofNat k) ∧
      ∀ (v w : Vertex n) (gpu : RocmDevice) (index : ℕ) (node : UInt32),
        (∀ a ∈ v.mAdapters, a.numaAffinity = none) → (∀ a ∈ w.mAdapters, a.numaAffinity = none) →
        gpu.numaAffinity = some node →
          (((v.addAdapter (nvmlAdapter n device)).get .uint64 "numa_affinity" =
              (w.addAdapter (rocmAdapter n gpu index)).get .uint64 "numa_affinity" ↔
                k = node.toNat) ↔
            node.toNat ≠ k ∧ node.toNat ≠ ffsAnswer k) := by
  obtain ⟨k, hk, hlowest⟩ := exists_lowestNode hne
  have hanswer : (nvmlAdapter n device).numaAffinity = some (UInt64.ofNat (ffsAnswer k)) := by
    rw [← ffs_eq hlowest]
    exact congrArg (Option.map ffs) hdevice
  have hle := ffsAnswer_le k
  have hmiss := ffsAnswer_ne k
  refine ⟨k, hk, hlowest, hanswer, fun h => ?_, fun v w gpu index node hv hw hgpu => ?_⟩
  · rw [hanswer, Option.some.injEq, ← UInt64.toNat_inj, UInt64.toNat_ofNat',
      UInt64.toNat_ofNat'] at h
    omega
  · have hrocm : (rocmAdapter n gpu index).numaAffinity = some node.toUInt64 :=
      congrArg (Option.map UInt32.toUInt64) hgpu
    have hvalues : (nvmlAdapter n device).numaAffinity = (rocmAdapter n gpu index).numaAffinity ↔
        ffsAnswer k = node.toNat := by
      rw [hanswer, hrocm, Option.some.injEq, ← UInt64.toNat_inj, UInt64.toNat_ofNat',
        UInt32.toNat_toUInt64, Nat.mod_eq_of_lt (by omega)]
    have hequal : (v.addAdapter (nvmlAdapter n device)).get .uint64 "numa_affinity" =
        (w.addAdapter (rocmAdapter n gpu index)).get .uint64 "numa_affinity" ↔
          ffsAnswer k = node.toNat := by
      rw [get_numaAffinity hv, get_numaAffinity hw]
      exact hvalues
    rw [hequal]
    omega

/-- A GPU of NVML whose memory is near the nodes of the set. -/
def gpuNear (nodeSet : UInt64) : NvmlDevice where
  handle := 0
  name := "A100"
  pciInfo := none
  memoryAffinity := some nodeSet

/-- A GPU of ROCm on the node. -/
def gpuOnNode (node : UInt32) : RocmDevice where
  name := "MI250"
  pciId := none
  numaAffinity := some node

/-- GPUs on the nodes 0 and 2 have answers that compare as the nodes do. -/
theorem numaAffinity_ne_lowestNode_zero :
    (nvmlAdapter 1 (gpuNear 1)).numaAffinity ≠ some 0 ∧
      ((({} : Vertex 1).addAdapter (nvmlAdapter 1 (gpuNear 1))).get .uint64 "numa_affinity" =
          (({} : Vertex 1).addAdapter (rocmAdapter 1 (gpuOnNode 2) 0)).get .uint64 "numa_affinity" ↔
        (0 : ℕ) = (2 : UInt32).toNat) := by
  obtain ⟨k, -, hlowest, -, hne, hcompare⟩ :=
    numaAffinity_ne_lowestNode (n := 1) (show (1 : UInt64) ≠ 0 by decide)
      (show (gpuNear 1).memoryAffinity = some 1 from rfl)
  obtain rfl : k = 0 := by
    by_contra hk
    exact absurd (hlowest.least 0 (Nat.pos_of_ne_zero hk)) (by decide)
  refine ⟨hne, (hcompare {} {} (gpuOnNode 2) 0 2 ?_ ?_ rfl).mpr (by decide)⟩
  · intro a ha
    cases ha
  · intro a ha
    cases ha

/-- Near node 0 a GPU of NVML answers 1, as a GPU of ROCm on node 1 and not one on node 0. -/
theorem not_numaAffinity_lowestNode :
    LowestNode 1 0 ∧ (nvmlAdapter 1 (gpuNear 1)).numaAffinity ≠ some 0 ∧
      (nvmlAdapter 1 (gpuNear 1)).numaAffinity ≠ (rocmAdapter 1 (gpuOnNode 0) 0).numaAffinity ∧
      (nvmlAdapter 1 (gpuNear 1)).numaAffinity = (rocmAdapter 1 (gpuOnNode 1) 0).numaAffinity := by
  refine ⟨⟨by decide, fun j hj => ?_⟩, by decide, by decide, by decide⟩
  exact absurd hj (Nat.not_lt_zero j)

end Yloc
