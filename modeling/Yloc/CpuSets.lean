import Yloc.Affinity

/-!
`affinity.h`: from CPU sets to masks and back.

A mask has as many bits as there are online CPUs, and a bit is addressed by the id of
its CPU. That fits when the online CPUs are numbered from zero on without gaps, and
`cpuSets_preserved_iff` says that it fits then only: an id beyond the number of online
CPUs is dropped by one constructor and fails the assertion of the other.

* `AffinityMask.ofCpuSetChecked`, `AffinityMask.ofHwlocBitmapChecked`: the constructors
  with the assertions that an index is in range.
* `AffinityMask.toCpuSet`, `AffinityMask.toHwlocBitmap`: the conversions back.
* `AffinityMask.get_ofCpuSet`, `cpuIsset_toCpuSet`, `mem_toHwlocBitmap`: what the loops
  leave.
* `AffinityMask.encodings_roundTrip`: what the conversions of a mask keep.
* `AffinityMask.preserves_iff`: which sets are preserved.
-/

namespace Yloc

/-- `CPU_SET`, which does nothing from `CPU_SETSIZE` on. -/
def cpuSet (cpu : ℕ) (mask : CpuSet) : CpuSet := mask ||| BitVec.twoPow cpuSetSize cpu

/-- `CPU_ZERO`. -/
def cpuZero : CpuSet := BitVec.zero cpuSetSize

/-- The `cpu_set_t` of the CPUs in `S`. -/
def cpuSetOf (S : Finset ℕ) : CpuSet :=
  (HwlocBitmap.foreach S).foldl (fun mask cpu => cpuSet cpu mask) cpuZero

lemma cpuIsset_cpuSet (i cpu : ℕ) (mask : CpuSet) :
    cpuIsset i (cpuSet cpu mask) = (cpuIsset i mask || decide (i = cpu ∧ i < cpuSetSize)) := by
  rw [cpuIsset, cpuSet, BitVec.getLsbD_or, BitVec.getLsbD_twoPow, cpuIsset]
  by_cases hcpu : i = cpu
  · subst hcpu
    simp
  · simp [hcpu, Ne.symm hcpu]

lemma cpuIsset_cpuZero (cpu : ℕ) : cpuIsset cpu cpuZero = false := by
  rw [cpuIsset, cpuZero, BitVec.zero_eq, BitVec.getLsbD_zero]

/-- A loop of `CPU_SET`. -/
lemma cpuIsset_foldl (l : List ℕ) (mask : CpuSet) (i : ℕ) :
    cpuIsset i (l.foldl (fun mask cpu => cpuSet cpu mask) mask) =
      (cpuIsset i mask || decide (i ∈ l ∧ i < cpuSetSize)) := by
  induction l generalizing mask with
  | nil => simp
  | cons cpu l ih =>
      rw [List.foldl_cons, ih, cpuIsset_cpuSet, Bool.or_assoc]
      congr 1
      rw [Bool.eq_iff_iff]
      simp only [Bool.or_eq_true, decide_eq_true_eq, List.mem_cons]
      tauto

lemma cpuIsset_cpuSetOf (S : Finset ℕ) (cpu : ℕ) :
    cpuIsset cpu (cpuSetOf S) = decide (cpu ∈ S ∧ cpu < cpuSetSize) := by
  rw [cpuSetOf, cpuIsset_foldl]
  simp [cpuIsset_cpuZero, HwlocBitmap.mem_foreach]

/-- Sets with the same CPUs are equal. -/
lemma cpuSet_ext {a b : CpuSet} (h : ∀ cpu, cpuIsset cpu a = cpuIsset cpu b) : a = b :=
  BitVec.eq_of_getLsbD_eq fun cpu _ => h cpu

namespace AffinityMask

variable {n : ℕ}

/-- `(*this)[cpu] = b`, which asserts that the index is in range. -/
def setChecked (m : AffinityMask n) (cpu : ℕ) (b : Bool) : Option (AffinityMask n) :=
  if cpu < n then some (m.set cpu b) else none

/-- `AffinityMask(cpu_set_t)` with assertions. -/
def ofCpuSetChecked (mask : CpuSet) : Option (AffinityMask n) :=
  (List.range n).foldlM (fun m cpu => m.setChecked cpu (cpuIsset cpu mask)) zero

/-- `AffinityMask(hwloc_bitmap_t)` with assertions. -/
def ofHwlocBitmapChecked (mask : HwlocBitmap) : Option (AffinityMask n) :=
  (HwlocBitmap.foreach mask).foldlM (fun m id => m.setChecked id (decide (id ∈ mask))) zero

/-- `operator cpu_set_t`. -/
def toCpuSet (m : AffinityMask n) : CpuSet :=
  (List.range n).foldl (fun mask cpu => if m.get cpu then cpuSet cpu mask else mask)
    cpuZero

/-- `operator hwloc_bitmap_t`. -/
def toHwlocBitmap (m : AffinityMask n) : HwlocBitmap :=
  (List.range n).foldl (fun mask cpu => if m.get cpu then insert cpu mask else mask) ∅

/-! ### What the loops leave -/

/-- A loop with assertions returns when no index is out of range. -/
lemma foldlM_setChecked (l : List ℕ) (f : ℕ → Bool) (m : AffinityMask n) :
    l.foldlM (fun m cpu => m.setChecked cpu (f cpu)) m =
      if ∀ cpu ∈ l, cpu < n then some (l.foldl (fun m cpu => m.set cpu (f cpu)) m) else none := by
  induction l generalizing m with
  | nil => simp
  | cons cpu l ih =>
      rw [List.foldlM_cons, setChecked, List.foldl_cons]
      by_cases hcpu : cpu < n
      · rw [if_pos hcpu]
        simp [ih, hcpu]
      · rw [if_neg hcpu, if_neg fun h => hcpu (h cpu List.mem_cons_self)]
        rfl

/-- A loop that sets the bits of a list. -/
lemma get_foldl_set (l : List ℕ) (f : ℕ → Bool) (m : AffinityMask n) (i : ℕ) :
    (l.foldl (fun m cpu => m.set cpu (f cpu)) m).get i =
      if i ∈ l ∧ i < n then f i else m.get i := by
  induction l generalizing m with
  | nil => simp
  | cons cpu l ih =>
      rw [List.foldl_cons, ih, get_set]
      by_cases hi : i < n
      · by_cases hcpu : i = cpu
        · subst hcpu
          simp [hi]
        · simp [hi, hcpu]
      · simp [hi]

/-- The loop over the online CPUs is in range. -/
lemma ofCpuSetChecked_eq (mask : CpuSet) :
    (ofCpuSetChecked mask : Option (AffinityMask n)) = some (ofCpuSet mask) := by
  rw [ofCpuSetChecked, foldlM_setChecked, if_pos fun cpu hcpu => List.mem_range.mp hcpu]
  rfl

lemma ofHwlocBitmapChecked_eq (mask : HwlocBitmap) :
    (ofHwlocBitmapChecked mask : Option (AffinityMask n)) =
      if ∀ id ∈ mask, id < n then some (ofHwlocBitmap mask) else none := by
  rw [ofHwlocBitmapChecked, foldlM_setChecked]
  simp only [HwlocBitmap.mem_foreach]
  rfl

lemma get_ofCpuSet (mask : CpuSet) (cpu : ℕ) :
    (ofCpuSet mask : AffinityMask n).get cpu = (decide (cpu < n) && cpuIsset cpu mask) := by
  rw [ofCpuSet, get_foldl_set, get_zero]
  by_cases hcpu : cpu < n
  · simp [hcpu]
  · simp [hcpu]

lemma get_ofHwlocBitmap (mask : HwlocBitmap) (id : ℕ) :
    (ofHwlocBitmap mask : AffinityMask n).get id = (decide (id < n) && decide (id ∈ mask)) := by
  rw [ofHwlocBitmap, get_foldl_set, get_zero]
  simp only [HwlocBitmap.mem_foreach]
  by_cases hid : id < n
  · by_cases hmem : id ∈ mask <;> simp [hid, hmem]
  · simp [hid]

/-- The conversion to `cpu_set_t` reads the bits that there is room for. -/
lemma cpuIsset_toCpuSet (m : AffinityMask n) (cpu : ℕ) :
    cpuIsset cpu m.toCpuSet = (m.get cpu && decide (cpu < cpuSetSize)) := by
  rw [toCpuSet, ← List.foldl_filter, cpuIsset_foldl, cpuIsset_cpuZero]
  by_cases hcpu : cpu < n
  · by_cases hsize : cpu < cpuSetSize <;> simp [hcpu, hsize]
  · simp [hcpu, get_eq_false (not_lt.mp hcpu)]

/-- There is room for all bits of a mask that is not longer than the set. -/
lemma cpuIsset_toCpuSet_of_le (hn : n ≤ cpuSetSize) (m : AffinityMask n) (cpu : ℕ) :
    cpuIsset cpu m.toCpuSet = m.get cpu := by
  rw [cpuIsset_toCpuSet]
  by_cases hcpu : cpu < n
  · rw [decide_eq_true (lt_of_lt_of_le hcpu hn), Bool.and_true]
  · rw [get_eq_false (not_lt.mp hcpu), Bool.false_and]

/-- A loop of `hwloc_bitmap_set`. -/
lemma mem_foldl_insert (l : List ℕ) (mask : HwlocBitmap) (id : ℕ) :
    id ∈ l.foldl (fun mask cpu => insert cpu mask) mask ↔ id ∈ mask ∨ id ∈ l := by
  induction l generalizing mask with
  | nil => simp
  | cons cpu l ih =>
      rw [List.foldl_cons, ih, Finset.mem_insert, List.mem_cons]
      tauto

/-- The conversion to `hwloc_bitmap_t` reads all bits. -/
lemma mem_toHwlocBitmap {m : AffinityMask n} {id : ℕ} :
    id ∈ m.toHwlocBitmap ↔ m.get id = true := by
  rw [toHwlocBitmap, ← List.foldl_filter, mem_foldl_insert, List.mem_filter, List.mem_range]
  constructor
  · rintro (hid | ⟨-, hid⟩)
    · exact absurd hid (Finset.notMem_empty id)
    · exact hid
  · intro hid
    refine .inr ⟨?_, hid⟩
    by_contra hn
    rw [get_eq_false (not_lt.mp hn)] at hid
    cases hid

/-! ### What the conversions of a mask keep -/

/-- A mask is read back from its bitmap, and no index of that is out of range. -/
lemma ofHwlocBitmapChecked_toHwlocBitmap (m : AffinityMask n) :
    ofHwlocBitmapChecked m.toHwlocBitmap = some m := by
  have hids : ∀ id ∈ m.toHwlocBitmap, id < n := by
    intro id hid
    by_contra hn
    rw [mem_toHwlocBitmap, get_eq_false (not_lt.mp hn)] at hid
    cases hid
  rw [ofHwlocBitmapChecked_eq, if_pos hids]
  refine congrArg some (ext fun cpu hcpu => ?_)
  rw [get_ofHwlocBitmap, decide_eq_true hcpu, Bool.true_and]
  simp only [mem_toHwlocBitmap, Bool.decide_eq_true]

/-- What is read back from the `cpu_set_t` of a mask are the bits below `CPU_SETSIZE`. -/
lemma get_ofCpuSet_toCpuSet (m : AffinityMask n) (cpu : ℕ) :
    (ofCpuSet m.toCpuSet : AffinityMask n).get cpu =
      (m.get cpu && decide (cpu < cpuSetSize)) := by
  rw [get_ofCpuSet, cpuIsset_toCpuSet]
  by_cases hcpu : cpu < n
  · rw [decide_eq_true hcpu, Bool.true_and]
  · rw [decide_eq_false hcpu, Bool.false_and, get_eq_false (not_lt.mp hcpu), Bool.false_and]

/-- Masks are included in one another as their bitmaps are. -/
lemma toHwlocBitmap_subset_iff {a b : AffinityMask n} :
    a.toHwlocBitmap ⊆ b.toHwlocBitmap ↔ a.isContainedIn b = true := by
  rw [isContainedIn_iff]
  simp only [Finset.subset_iff, mem_toHwlocBitmap]

/-- **The encodings of masks**: the bitmap of hwloc gives the mask back, `cpu_set_t` gives
back what is below `CPU_SETSIZE` of it, and containment is inclusion of the encodings. -/
theorem encodings_roundTrip (a b : AffinityMask n) :
    ofHwlocBitmapChecked a.toHwlocBitmap = some a ∧
    (∃ c : AffinityMask n, ofCpuSetChecked a.toCpuSet = some c ∧ (n ≤ cpuSetSize → c = a) ∧
      ∀ cpu, c.get cpu = (a.get cpu && decide (cpu < cpuSetSize))) ∧
    (a.isContainedIn b = true ↔ b.isContaining a = true) ∧
    (a.isContainedIn b = true ↔ a.toHwlocBitmap ⊆ b.toHwlocBitmap) ∧
    (n ≤ cpuSetSize → (a.isContainedIn b = true ↔
      ∀ cpu, cpuIsset cpu a.toCpuSet = true → cpuIsset cpu b.toCpuSet = true)) := by
  refine ⟨ofHwlocBitmapChecked_toHwlocBitmap a, ⟨ofCpuSet a.toCpuSet, ofCpuSetChecked_eq _,
    fun hn => ext fun cpu hcpu => ?_, get_ofCpuSet_toCpuSet a⟩, Iff.rfl,
    toHwlocBitmap_subset_iff.symm, fun hn => ?_⟩
  · rw [get_ofCpuSet_toCpuSet, decide_eq_true (lt_of_lt_of_le hcpu hn), Bool.and_true]
  · simp only [cpuIsset_toCpuSet_of_le hn]
    exact isContainedIn_iff

/-- Two masks of three CPUs. -/
theorem encodings_roundTrip_three :
    ofCpuSetChecked (⟨0b101#3⟩ : AffinityMask 3).toCpuSet = some ⟨0b101#3⟩ ∧
      ∀ cpu, cpuIsset cpu (⟨0b100#3⟩ : AffinityMask 3).toCpuSet = true →
        cpuIsset cpu (⟨0b101#3⟩ : AffinityMask 3).toCpuSet = true := by
  obtain ⟨-, ⟨c, hc, hback, -⟩, -⟩ := encodings_roundTrip (⟨0b101#3⟩ : AffinityMask 3) .zero
  obtain ⟨-, -, -, -, hsubset⟩ := encodings_roundTrip (⟨0b100#3⟩ : AffinityMask 3) ⟨0b101#3⟩
  rw [hback (by decide)] at hc
  exact ⟨hc, (hsubset (by decide)).mp (by decide)⟩

/-! ### Which sets are preserved -/

/-- On a machine with `n` online CPUs the CPU sets `S` and `R` are told apart by their
masks, and `S` is read back from its mask. -/
structure Preserves (n : ℕ) (S R : Finset ℕ) : Prop where
  /-- Both constructors return, with one mask. -/
  decode : ∃ m : AffinityMask n, ofCpuSetChecked (cpuSetOf S) = some m ∧
    ofHwlocBitmapChecked S = some m
  /-- The conversion back gives the set. -/
  back : (ofCpuSet (cpuSetOf S) : AffinityMask n).toCpuSet = cpuSetOf S
  /-- Containment is inclusion. -/
  contains : (ofCpuSet (cpuSetOf S) : AffinityMask n).isContaining (ofCpuSet (cpuSetOf R)) = true ↔
    R ⊆ S

variable {S R : Finset ℕ}

/-- The mask of a set has the bits of those CPUs that are below the number of bits. -/
lemma get_ofCpuSet_cpuSetOf (hn : n ≤ cpuSetSize) (cpu : ℕ) :
    (ofCpuSet (cpuSetOf S) : AffinityMask n).get cpu = true ↔ cpu < n ∧ cpu ∈ S := by
  rw [get_ofCpuSet, cpuIsset_cpuSetOf, Bool.and_eq_true, decide_eq_true_eq, decide_eq_true_eq]
  constructor
  · exact fun h => ⟨h.1, h.2.1⟩
  · exact fun h => ⟨h.1, h.2, lt_of_lt_of_le h.1 hn⟩

/-- **A set is preserved when its ids are below the number of bits**, and contains what
its mask contains when the other set does not differ in higher ids alone. -/
theorem preserves_iff (hn : n ≤ cpuSetSize) :
    Preserves n S R ↔
      (∀ id ∈ S, id < n) ∧ ((∀ id ∈ R, id < n → id ∈ S) → R ⊆ S) := by
  have hcontains : (ofCpuSet (cpuSetOf S) : AffinityMask n).isContaining
      (ofCpuSet (cpuSetOf R)) = true ↔ ∀ id ∈ R, id < n → id ∈ S := by
    rw [isContaining_iff]
    simp only [get_ofCpuSet_cpuSetOf hn]
    exact ⟨fun h id hR hid => (h id ⟨hid, hR⟩).2, fun h id hid => ⟨hid.1, h id hid.2 hid.1⟩⟩
  constructor
  · rintro ⟨⟨m, -, hm⟩, -, hsubset⟩
    rw [ofHwlocBitmapChecked_eq] at hm
    refine ⟨?_, fun h => hsubset.mp (hcontains.mpr h)⟩
    by_contra hids
    rw [if_neg hids] at hm
    cases hm
  · rintro ⟨hids, hsubset⟩
    refine ⟨⟨ofCpuSet (cpuSetOf S), ofCpuSetChecked_eq _, ?_⟩, ?_, hcontains.trans
      ⟨hsubset, fun h id hid _ => h hid⟩⟩
    · rw [ofHwlocBitmapChecked_eq, if_pos hids]
      refine congrArg some (ext fun cpu hcpu => ?_)
      have hsize : cpu < cpuSetSize := lt_of_lt_of_le hcpu hn
      rw [get_ofHwlocBitmap, get_ofCpuSet, cpuIsset_cpuSetOf]
      simp [hsize]
    · refine cpuSet_ext fun cpu => ?_
      rw [cpuIsset_toCpuSet_of_le hn, get_ofCpuSet, cpuIsset_cpuSetOf]
      by_cases hmem : cpu ∈ S
      · simp [hids cpu hmem]
      · simp [hmem]

end AffinityMask

/-- **When CPU sets survive the conversion to masks**: exactly when the online CPUs are
those below their number. On any machine a set survives when its own ids are. -/
theorem cpuSets_preserved_iff {online : Finset ℕ} (honline : ∀ id ∈ online, id < cpuSetSize) :
    ((∀ S R, S ⊆ online → R ⊆ online → AffinityMask.Preserves online.card S R) ↔
      ∀ id ∈ online, id < online.card) ∧
    ∀ S R, S ⊆ online → R ⊆ online → (AffinityMask.Preserves online.card S R ↔
      (∀ id ∈ S, id < online.card) ∧
        ((∀ id ∈ R, id < online.card → id ∈ S) → R ⊆ S)) := by
  have hcard : online.card ≤ cpuSetSize :=
    calc online.card ≤ (Finset.range cpuSetSize).card :=
          Finset.card_le_card fun id hid => Finset.mem_range.mpr (honline id hid)
      _ = cpuSetSize := Finset.card_range _
  refine ⟨⟨fun h => ?_, fun h S R hS hR => ?_⟩, fun S R _ _ => AffinityMask.preserves_iff hcard⟩
  · have hall := h online online Finset.Subset.rfl Finset.Subset.rfl
    exact ((AffinityMask.preserves_iff hcard).mp hall).1
  · exact (AffinityMask.preserves_iff hcard).mpr ⟨fun id hid => h id (hS hid),
      fun hsubset id hid => hsubset id hid (h id (hR hid))⟩

theorem cpuSets_preserved_iff_two :
    ((∀ S R, S ⊆ {0, 1} → R ⊆ {0, 1} →
        AffinityMask.Preserves ({0, 1} : Finset ℕ).card S R) ↔
      ∀ id ∈ ({0, 1} : Finset ℕ), id < ({0, 1} : Finset ℕ).card) ∧
    ∀ S R, S ⊆ {0, 1} → R ⊆ {0, 1} →
      (AffinityMask.Preserves ({0, 1} : Finset ℕ).card S R ↔
        (∀ id ∈ S, id < ({0, 1} : Finset ℕ).card) ∧
          ((∀ id ∈ R, id < ({0, 1} : Finset ℕ).card → id ∈ S) → R ⊆ S)) :=
  cpuSets_preserved_iff (by decide)

/-- With the CPUs 0 and 2 online the mask of CPU 2 is empty, the assertion fails, and the
mask of CPU 0 contains it. -/
theorem not_preserves_gap :
    ({2} : Finset ℕ) ⊆ {0, 2} ∧
      (AffinityMask.ofCpuSet (cpuSetOf {2}) : AffinityMask ({0, 2} : Finset ℕ).card) = .zero ∧
      (AffinityMask.ofHwlocBitmapChecked {2} :
        Option (AffinityMask ({0, 2} : Finset ℕ).card)) = none ∧
      (AffinityMask.ofCpuSet (cpuSetOf {0}) : AffinityMask ({0, 2} : Finset ℕ).card).isContaining
        (AffinityMask.ofCpuSet (cpuSetOf {2})) = true ∧
      ¬ AffinityMask.Preserves ({0, 2} : Finset ℕ).card {2} {2} := by
  have hassert : (AffinityMask.ofHwlocBitmapChecked {2} :
      Option (AffinityMask ({0, 2} : Finset ℕ).card)) = none := by decide +kernel
  refine ⟨by decide, by decide +kernel, hassert, by decide +kernel, fun h => ?_⟩
  obtain ⟨m, -, hm⟩ := h.decode
  rw [hassert] at hm
  cases hm

end Yloc
