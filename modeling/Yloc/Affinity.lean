import Mathlib.Tactic
import Mathlib.Data.Finset.Lattice.Fold

/-!
`affinity.h`: the masks that say which CPUs a component serves.

`AffinityMask n` is the `boost::dynamic_bitset` of `n = m_nprocs_online` bits.
It is built from a Linux `cpu_set_t` (`AffinityMask.ofCpuSet`) or from an hwloc
bitmap (`AffinityMask.ofHwlocBitmap`). `AffinityMask.isContaining` is decided
by an and followed by a comparison; `isContaining_iff` reads it as inclusion of
the set bits, and `count_le_of_isContaining` compares the number of CPUs.

Here and in the other modules assertions are left out, as in a build with `NDEBUG`, but in
the definitions whose names end in `Checked`. Without its assertion the second constructor
is undefined for an index from `m_nprocs_online` on, since the `operator[]` of the bitset is
not checked, so `AffinityMask.ofHwlocBitmap` is for bitmaps that have no such index.
-/

namespace Yloc

/-- `CPU_SETSIZE`, the capacity of a `cpu_set_t`. -/
def cpuSetSize : ℕ := 1024

/-- `cpu_set_t`. -/
abbrev CpuSet := BitVec cpuSetSize

/-- `CPU_ISSET`, which is false from `CPU_SETSIZE` on. -/
def cpuIsset (cpu : ℕ) (mask : CpuSet) : Bool := mask.getLsbD cpu

/-- `hwloc_bitmap_t` as the set of its indices. -/
abbrev HwlocBitmap := Finset ℕ

/-- The indices in the order of `hwloc_bitmap_foreach_begin`. -/
def HwlocBitmap.foreach (mask : HwlocBitmap) : List ℕ :=
  (List.range (mask.sup fun id => id + 1)).filter (· ∈ mask)

lemma HwlocBitmap.mem_foreach {mask : HwlocBitmap} {id : ℕ} :
    id ∈ HwlocBitmap.foreach mask ↔ id ∈ mask := by
  rw [HwlocBitmap.foreach, List.mem_filter, List.mem_range, decide_eq_true_eq]
  exact ⟨fun h => h.2, fun h => ⟨Finset.le_sup (f := fun id => id + 1) h, h⟩⟩

/-- `AffinityMask`: a bitset with one bit for each online CPU. -/
structure AffinityMask (n : ℕ) where
  bits : BitVec n
  deriving DecidableEq, Repr

namespace AffinityMask

variable {n : ℕ}

/-- `AffinityMask()`: all bits are zero. -/
def zero : AffinityMask n := ⟨0#n⟩

/-- `(*this)[cpu]`. -/
def get (m : AffinityMask n) (cpu : ℕ) : Bool := m.bits.getLsbD cpu

/-- `(*this)[cpu] = b`. -/
def set (m : AffinityMask n) (cpu : ℕ) (b : Bool) : AffinityMask n :=
  ⟨if b then m.bits ||| BitVec.twoPow n cpu else m.bits &&& ~~~ BitVec.twoPow n cpu⟩

@[ext] lemma ext {a b : AffinityMask n} (h : ∀ cpu < n, a.get cpu = b.get cpu) : a = b := by
  obtain ⟨a⟩ := a
  obtain ⟨b⟩ := b
  exact congrArg AffinityMask.mk (BitVec.eq_of_getLsbD_eq h)

lemma get_eq_false {m : AffinityMask n} {cpu : ℕ} (h : n ≤ cpu) : m.get cpu = false :=
  BitVec.getLsbD_of_ge _ _ h

@[simp] lemma get_zero (cpu : ℕ) : (zero : AffinityMask n).get cpu = false := by
  simp [get, zero]

lemma get_set (m : AffinityMask n) (cpu : ℕ) (b : Bool) (i : ℕ) :
    (m.set cpu b).get i = if i = cpu ∧ i < n then b else m.get i := by
  by_cases hi : i < n
  · by_cases h : i = cpu
    · subst h
      cases b <;> simp [get, set, hi]
    · cases b <;> simp [get, set, hi, h]
  · simp [get_eq_false (Nat.le_of_not_lt hi), hi]

/-- `AffinityMask(cpu_set_t)`: the loop over the online CPUs. -/
def ofCpuSet (mask : CpuSet) : AffinityMask n :=
  (List.range n).foldl (fun m cpu => m.set cpu (cpuIsset cpu mask)) zero

/-- `AffinityMask(hwloc_bitmap_t)`: the loop over the indices of the bitmap, which are
taken to be below `m_nprocs_online`, as the source asserts. (A larger one is left out here.) -/
def ofHwlocBitmap (mask : HwlocBitmap) : AffinityMask n :=
  (HwlocBitmap.foreach mask).foldl (fun m id => m.set id (decide (id ∈ mask))) zero

/-- `dynamic_bitset::any`. -/
def any (m : AffinityMask n) : Bool := m.bits != 0#n

/-- `dynamic_bitset::count`. -/
def count (m : AffinityMask n) : ℕ := (List.range n).countP m.get

/-- `AffinityMask::is_contained_in`. -/
def isContainedIn (m other : AffinityMask n) : Bool := (other.bits &&& m.bits) == m.bits

/-- `AffinityMask::is_containing`. -/
def isContaining (m other : AffinityMask n) : Bool := other.isContainedIn m

/-- Containment is inclusion of the set bits. -/
theorem isContainedIn_iff {m other : AffinityMask n} :
    m.isContainedIn other = true ↔ ∀ cpu, m.get cpu = true → other.get cpu = true := by
  rw [isContainedIn, beq_iff_eq]
  constructor
  · intro h cpu hcpu
    have hbit := congrArg (fun b => b.getLsbD cpu) h
    simp only [BitVec.getLsbD_and] at hbit
    rw [get] at hcpu ⊢
    rw [hcpu, Bool.and_true] at hbit
    exact hbit
  · intro h
    refine BitVec.eq_of_getLsbD_eq fun i _ => ?_
    rw [BitVec.getLsbD_and]
    cases hm : m.bits.getLsbD i with
    | false => simp
    | true => rw [show other.bits.getLsbD i = true from h i hm, Bool.true_and]

lemma isContaining_iff {m other : AffinityMask n} :
    m.isContaining other = true ↔ ∀ cpu, other.get cpu = true → m.get cpu = true :=
  isContainedIn_iff

lemma isContaining_trans {a b c : AffinityMask n} (hab : a.isContaining b = true)
    (hbc : b.isContaining c = true) : a.isContaining c = true :=
  isContaining_iff.mpr fun cpu h => isContaining_iff.mp hab cpu (isContaining_iff.mp hbc cpu h)

/-- A contained mask has at most as many CPUs. -/
lemma count_le_of_isContaining {a b : AffinityMask n} (h : a.isContaining b = true) :
    b.count ≤ a.count :=
  List.countP_mono_left fun cpu _ hcpu => isContaining_iff.mp h cpu hcpu

end AffinityMask

end Yloc
