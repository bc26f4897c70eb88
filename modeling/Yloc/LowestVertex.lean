import Yloc.Util

/-!
What `lowest_containing_vertex` returns, and when it is a lowest containing
vertex.

On every graph without cycles of CHILD edges the search returns the end of a
descent along children of least count, and no child there serves the query
(`lowestContainingVertex_sound`).

The search goes to one candidate of least count and does not come back, so a
sibling left aside may hide a smaller vertex, as the package beside a NUMA node
does in `not_isLowest_overlap`. It also does not look below an MPI process. On
a tree with nested masks this is all that can go wrong: where siblings match
(`Graph.SiblingsMatch`) and MPI processes have no children, the search returns a
lowest containing vertex for every order in which `std::sort` leaves candidates
of equal count (`lowestContainingVertex_lowest`).
-/

namespace Yloc

open Relation

variable {n : ℕ}

namespace Graph

/-- The CHILD edges are a tree with the root vertex as root. -/
structure ChildTree (g : Graph n) : Prop where
  root : g.mRootVertex < g.numVertices
  lt : ∀ u v, g.Child u v → v < g.numVertices
  parent : ∀ u u' v, g.Child u v → g.Child u' v → u = u'
  acyclic : Acyclic g.Child

/-- The masks are nested: a vertex with a mask lies below one with a mask that
contains it. -/
def NestedMasks (g : Graph n) : Prop :=
  ∀ u v, g.Child u v → ∀ m, (g.vertex v).cpuAffinityMask = some m →
    ∃ m', (g.vertex u).cpuAffinityMask = some m' ∧ m'.isContaining m = true

/-- No eligible vertex reachable from the root has fewer CPUs. -/
def IsLowest (g : Graph n) (mask : AffinityMask n) (v : VertexT) : Prop :=
  ∀ w, ReflTransGen g.Child g.mRootVertex w → g.eligible mask w = true →
    ¬ g.maskCount w < g.maskCount v

/-- MPI processes have no children. -/
def ChildlessProcesses (g : Graph n) : Prop :=
  ∀ u v, g.Child u v → (g.vertex u).mType.isA .mpiProcess = false

/-- Siblings that contain the query match: what is at or below the one with more CPUs has
its match, with as few CPUs, at or below the one with fewer. -/
def SiblingsMatch (g : Graph n) (mask : AffinityMask n) : Prop :=
  ∀ u v w, ReflTransGen g.Child g.mRootVertex u → g.Child u v → g.Child u w →
    g.eligible mask v = true → g.eligible mask w = true → g.maskCount v ≤ g.maskCount w →
    ∀ x, ReflTransGen g.Child w x → g.eligible mask x = true →
      ∃ y, ReflTransGen g.Child v y ∧ g.eligible mask y = true ∧ g.maskCount y ≤ g.maskCount x

variable {g : Graph n} {mask : AffinityMask n}

/-- Masks shrink on the way down. -/
lemma NestedMasks.maskCount_le (hnested : g.NestedMasks) {u v : VertexT}
    (h : ReflTransGen (g.EligibleChild mask) u v) : g.maskCount v ≤ g.maskCount u := by
  induction h with
  | refl => exact le_rfl
  | @tail x v _ hxv ih =>
      refine le_trans ?_ ih
      obtain ⟨m, hm, -⟩ := Option.any_eq_true _ _ |>.mp (Bool.and_eq_true _ _ |>.mp hxv.2).1
      obtain ⟨m', hm', hcontains⟩ := hnested x v hxv.1 m hm
      rw [maskCount, maskCount, hm, hm']
      exact AffinityMask.count_le_of_isContaining hcontains

/-- So a path to a vertex that contains the query is one along such vertices. -/
lemma NestedMasks.reach_eligible (hnested : g.NestedMasks) (hprocesses : g.ChildlessProcesses)
    {u w : VertexT} (huw : ReflTransGen g.Child u w) (hw : g.eligible mask w = true) :
    ReflTransGen (g.EligibleChild mask) u w := by
  induction huw with
  | refl => exact .refl
  | @tail x w hux hxw ih =>
      rcases ReflTransGen.cases_tail hux with rfl | ⟨y, -, hyx⟩
      · exact .single ⟨hxw, hw⟩
      · refine (ih ?_).tail ⟨hxw, hw⟩
        simp only [Graph.eligible, Bool.and_eq_true, Option.any_eq_true] at hw ⊢
        obtain ⟨⟨m, hm, hcontains⟩, -⟩ := hw
        obtain ⟨m', hm', hcontains'⟩ := hnested x w hxw m hm
        exact ⟨⟨m', hm', AffinityMask.isContaining_trans hcontains' hcontains⟩,
          by rw [hprocesses x w hxw, Bool.not_false]⟩

/-- **A descent ends at a lowest vertex** of those below its beginning, if siblings match. -/
theorem SiblingsMatch.maskCount_le (hmatch : g.SiblingsMatch mask) (hnested : g.NestedMasks)
    (hprocesses : g.ChildlessProcesses) {u v : VertexT}
    (hu : ReflTransGen g.Child g.mRootVertex u) (huv : ReflTransGen (g.Descends mask) u v)
    (hnil : g.candidates mask v = []) :
    ∀ w, ReflTransGen g.Child u w → g.eligible mask w = true → g.maskCount v ≤ g.maskCount w := by
  induction huv using ReflTransGen.head_induction_on with
  | refl =>
      intro w hvw hw
      rcases ReflTransGen.cases_head (hnested.reach_eligible hprocesses hvw hw) with
        rfl | ⟨c, hc, -⟩
      · exact le_rfl
      · exact absurd hc (candidates_eq_nil.mp hnil c)
  | @head u c huc hcv ih =>
      intro w huw hw
      rcases ReflTransGen.cases_head (hnested.reach_eligible hprocesses huw hw) with
        rfl | ⟨d, hd, hdw⟩
      · exact hnested.maskCount_le (reach_eligible_of_descends (.head huc hcv))
      · -- the sibling `d` above `w` has been left aside for `c`
        obtain ⟨y, hcy, hy, hle⟩ := hmatch u c d hu huc.child hd.1 huc.1.2 hd.2 (huc.2 d hd) w
          (reach_child_of_eligible hdw) hw
        exact (ih (hu.tail huc.child) y hcy hy).trans hle

end Graph

/-- **When the vertex returned is a lowest containing vertex**: on a tree with nested masks
where MPI processes have no children, if siblings that contain the query match. The search
then returns for every order of equal candidates, and returns a vertex whose mask contains
the query. -/
theorem lowestContainingVertex_lowest {g : Graph n} (hg : g.ChildTree) (hnested : g.NestedMasks)
    (hprocesses : g.ChildlessProcesses) {mask : AffinityMask n}
    (hroot : ∃ m, (g.vertex g.mRootVertex).cpuAffinityMask = some m ∧ m.isContaining mask = true)
    (hmatch : g.SiblingsMatch mask) (S : StdSort VertexT) :
    ∃ v m, lowestContainingVertex S g mask = .ok v ∧
      (g.vertex v).cpuAffinityMask = some m ∧ m.isContaining mask = true ∧
      g.IsLowest mask v := by
  obtain ⟨v, hv⟩ := exists_lowestContainingVertex S mask hg.root hg.lt hg.acyclic
  obtain ⟨-, hreach, hnil⟩ := lowestContainingVertex_spec hv
  have hmask : ∃ m, (g.vertex v).cpuAffinityMask = some m ∧ m.isContaining mask = true := by
    rcases ReflTransGen.cases_tail hreach with rfl | ⟨u, -, huv⟩
    · exact hroot
    · exact Option.any_eq_true _ _ |>.mp (Bool.and_eq_true _ _ |>.mp huv.1.2).1
  obtain ⟨m, hm, hcontains⟩ := hmask
  refine ⟨v, m, hv, hm, hcontains, fun w hw hwmask => not_lt.mpr ?_⟩
  exact hmatch.maskCount_le hnested hprocesses .refl hreach hnil w hw hwmask

/-! ### What the search returns on any graph -/

namespace Graph

/-- The vertex `v` is not an MPI process and answers a mask of `count` CPUs that
contains the query. -/
def Serves (g : Graph n) (mask : AffinityMask n) (v : VertexT) (count : ℕ) : Prop :=
  (g.vertex v).mType.isA .mpiProcess = false ∧
    ∃ m, (g.vertex v).get .affinityMask "cpu_affinity_mask" = some m ∧
      m.isContaining mask = true ∧ m.count = count

/-- There is a CHILD edge from `u` to `v`, and of the CHILD targets of `u` that
serve the query none has fewer CPUs than `v`. -/
def LeastServingChild (g : Graph n) (mask : AffinityMask n) (u v : VertexT) : Prop :=
  g.Child u v ∧ ∃ count, g.Serves mask v count ∧
    ∀ w count', g.Child u w → g.Serves mask w count' → count ≤ count'

variable {g : Graph n} {mask : AffinityMask n} {u v : VertexT}

/-- The candidates are the vertices that serve the query. -/
lemma serves_iff {count : ℕ} :
    g.Serves mask v count ↔ g.eligible mask v = true ∧ g.maskCount v = count := by
  rw [eligible, Bool.and_eq_true, Option.any_eq_true, Bool.not_eq_true']
  constructor
  · rintro ⟨htype, m, hm, hcontains, rfl⟩
    have hm' : (g.vertex v).cpuAffinityMask = some m := hm
    exact ⟨⟨⟨m, hm', hcontains⟩, htype⟩, by rw [maskCount, hm']; rfl⟩
  · rintro ⟨⟨⟨m, hm, hcontains⟩, htype⟩, rfl⟩
    exact ⟨htype, m, hm, hcontains, by rw [maskCount, hm]; rfl⟩

/-- A step of the search goes to a child of least count. -/
lemma Descends.leastServingChild (h : g.Descends mask u v) : g.LeastServingChild mask u v := by
  obtain ⟨⟨hchild, heligible⟩, hleast⟩ := h
  refine ⟨hchild, g.maskCount v, serves_iff.mpr ⟨heligible, rfl⟩, fun w count' hw hserves => ?_⟩
  obtain ⟨hw', rfl⟩ := serves_iff.mp hserves
  exact hleast w ⟨hw, hw'⟩

end Graph

/-- **The search is sound and goes as deep as it can**: it returns a vertex
reached from the root vertex by children of least count, below which no child
serves the query. -/
theorem lowestContainingVertex_sound {g : Graph n} (hroot : g.mRootVertex < g.numVertices)
    (hlt : ∀ u v, g.Child u v → v < g.numVertices) (hacyclic : Acyclic g.Child)
    (S : StdSort VertexT) (mask : AffinityMask n) :
    ∃ v, lowestContainingVertex S g mask = .ok v ∧
      ReflTransGen (g.LeastServingChild mask) g.mRootVertex v ∧
      ∀ w, g.Child v w → ∀ count, ¬ g.Serves mask w count := by
  obtain ⟨v, hv⟩ := exists_lowestContainingVertex S mask hroot hlt hacyclic
  obtain ⟨-, hreach, hnil⟩ := lowestContainingVertex_spec hv
  refine ⟨v, hv, ?_, fun w hw count hserves => ?_⟩
  · exact ReflTransGen.mono (fun _ _ hstep => hstep.leastServingChild) _ _ hreach
  · exact Graph.candidates_eq_nil.mp hnil w ⟨hw, (Graph.serves_iff.mp hserves).1⟩

/-! ### Two siblings that overlap -/

/-- A vertex whose only adapter answers the mask `m`. -/
def maskedVertex (m : AffinityMask n) : Vertex n where
  mAdapters := [{ cpuAffinityMask := some m, mObj := .hwlocObj 0 }]

/-- A machine of three CPUs with a NUMA node of the CPUs 0 and 1 beside a package
of all three, and a core of CPU 0 in the package. -/
def overlapGraph : Graph 3 where
  vertices := [maskedVertex ⟨0b111⟩, maskedVertex ⟨0b011⟩, maskedVertex ⟨0b111⟩,
    maskedVertex ⟨0b001⟩]
  edges := [⟨0, 1, .child⟩, ⟨1, 0, .parent⟩, ⟨0, 2, .child⟩, ⟨2, 0, .parent⟩,
    ⟨2, 3, .child⟩, ⟨3, 2, .parent⟩]

lemma overlapGraph_child {u v : ℕ} (h : overlapGraph.Child u v) :
    (u = 0 ∧ v = 1) ∨ (u = 0 ∧ v = 2) ∨ u = 2 ∧ v = 3 := by
  simpa [Arc.Step, overlapGraph] using h

lemma overlapGraph_childTree : overlapGraph.ChildTree where
  root := by decide
  lt u v h := by
    rcases overlapGraph_child h with ⟨-, rfl⟩ | ⟨-, rfl⟩ | ⟨-, rfl⟩ <;> decide
  parent u u' v h h' := by
    rcases overlapGraph_child h with ⟨rfl, rfl⟩ | ⟨rfl, rfl⟩ | ⟨rfl, rfl⟩ <;>
      simpa [eq_comm] using overlapGraph_child h'
  acyclic := acyclic_of_lt id fun u v h => by
    rcases overlapGraph_child h with ⟨rfl, rfl⟩ | ⟨rfl, rfl⟩ | ⟨rfl, rfl⟩ <;> decide

/-- The search for CPU 2 on this tree. -/
theorem lowestContainingVertex_sound_overlap :
    ∃ v, lowestContainingVertex .insertion overlapGraph ⟨0b100⟩ = .ok v ∧
      ReflTransGen (overlapGraph.LeastServingChild ⟨0b100⟩) overlapGraph.mRootVertex v ∧
      ∀ w, overlapGraph.Child v w → ∀ count, ¬ overlapGraph.Serves ⟨0b100⟩ w count :=
  lowestContainingVertex_sound overlapGraph_childTree.root overlapGraph_childTree.lt
    overlapGraph_childTree.acyclic .insertion _

lemma overlapGraph_nestedMasks : overlapGraph.NestedMasks := by
  intro u v huv m hm
  rcases overlapGraph_child huv with ⟨rfl, rfl⟩ | ⟨rfl, rfl⟩ | ⟨rfl, rfl⟩ <;>
    (obtain rfl := Option.some.inj hm; exact ⟨⟨0b111⟩, rfl, by decide⟩)

/-- The search for CPU 0 goes to the NUMA node and misses the core. -/
theorem not_isLowest_overlap :
    ¬ ∀ (g : Graph 3) (mask : AffinityMask 3), g.ChildTree → g.NestedMasks → mask.any = true →
      (∃ m, (g.vertex g.mRootVertex).cpuAffinityMask = some m ∧ m.isContaining mask = true) →
      ∀ S v, lowestContainingVertex S g mask = .ok v → g.IsLowest mask v := by
  intro h
  have hlowest := h overlapGraph ⟨1⟩ overlapGraph_childTree overlapGraph_nestedMasks (by decide)
    ⟨⟨0b111⟩, rfl, by decide⟩ .insertion 1 rfl
  have hcore : ReflTransGen overlapGraph.Child overlapGraph.mRootVertex 3 :=
    (ReflTransGen.single (b := 2) (by simp [Arc.Step, overlapGraph])).tail
      (by simp [Arc.Step, overlapGraph])
  exact hlowest 3 hcore (by decide) (by decide)

/-- The CPUs 0 and 1 are contained in the NUMA node and in the package, but in no smaller
vertex of the package. -/
theorem lowestContainingVertex_lowest_overlap :
    ∃ v m, lowestContainingVertex .insertion overlapGraph ⟨0b011⟩ = .ok v ∧
      (overlapGraph.vertex v).cpuAffinityMask = some m ∧ m.isContaining ⟨0b011⟩ = true ∧
      overlapGraph.IsLowest ⟨0b011⟩ v := by
  refine lowestContainingVertex_lowest overlapGraph_childTree overlapGraph_nestedMasks
    (fun u v h => ?_) ⟨⟨0b111⟩, rfl, by decide⟩ (fun u v w _ huv huw hv hw hle x hwx hx => ?_)
    .insertion
  · rcases overlapGraph_child h with ⟨rfl, -⟩ | ⟨rfl, -⟩ | ⟨rfl, -⟩ <;> decide
  · have hcount : 2 ≤ overlapGraph.maskCount x := by
      obtain ⟨m, hm, hcontains⟩ := Option.any_eq_true _ _ |>.mp (Bool.and_eq_true _ _ |>.mp hx).1
      rw [Graph.maskCount, hm]
      exact AffinityMask.count_le_of_isContaining hcontains
    rcases overlapGraph_child huv with ⟨rfl, rfl⟩ | ⟨rfl, rfl⟩ | ⟨rfl, rfl⟩
    · exact ⟨1, .refl, hv, hcount⟩
    · rcases overlapGraph_child huw with ⟨-, rfl⟩ | ⟨-, rfl⟩ | ⟨h, -⟩
      · exact absurd hle (by decide)
      · exact ⟨x, hwx, hx, le_rfl⟩
      · cases h
    · exact absurd hv (by decide)

end Yloc
