import Yloc.Graph
import Yloc.Lib.StdSort

/-!
`util.cc`: the search for the lowest vertex that contains a mask.

`lowestContainingVertexFrom` is the recursion of the source. It looks at the
candidates among the CHILD neighbours of a vertex, sorts them by the number of
their CPUs and goes on with the first; `std::sort` is a parameter. The
recursion is given the number of vertices as fuel.

* `Graph.Descends`: the steps that the search can take, over all ways of
  sorting.
* `lowestContainingVertexFrom_spec`: a result is reached by such steps and has
  no candidate left.
* `lowestContainingVertexFrom_ne_outOfRange`: the search stays in range.
* `exists_lowestContainingVertex`: without cycles of CHILD edges the fuel
  suffices and the search returns.
-/

namespace Yloc

open Relation

variable {n : ℕ}

namespace Graph

/-- The mask of a vertex contains `mask`, and the vertex is no MPI process. -/
def eligible (g : Graph n) (mask : AffinityMask n) (vd : VertexT) : Bool :=
  ((g.vertex vd).cpuAffinityMask.any fun m => m.isContaining mask) &&
    !(g.vertex vd).mType.isA .mpiProcess

/-- `candidates`: the targets of the CHILD edges that contain the mask. -/
def candidates (g : Graph n) (mask : AffinityMask n) (vd : VertexT) : List VertexT :=
  (g.childTargets vd).filter (g.eligible mask)

/-- `get<AffinityMask>("cpu_affinity_mask").value().count()`, taken of
candidates, which have a mask. -/
def maskCount (g : Graph n) (vd : VertexT) : ℕ :=
  ((g.vertex vd).cpuAffinityMask.map AffinityMask.count).getD 0

end Graph

/-- `lowest_containing_vertex(mask, vertex)`. -/
def lowestContainingVertexFrom (S : StdSort VertexT) (g : Graph n) (mask : AffinityMask n) :
    ℕ → VertexT → Except Abort VertexT
  | fuel, vertex =>
    if g.numVertices ≤ vertex then .error .outOfRange
    else match g.candidates mask vertex with
      | [] => .ok vertex
      | candidate :: candidates =>
          match fuel with
          | 0 => .error .divergence
          | fuel + 1 => lowestContainingVertexFrom S g mask fuel
              ((S.sort g.maskCount (candidate :: candidates)).headD candidate)

/-- `lowest_containing_vertex(mask)`. -/
def lowestContainingVertex (S : StdSort VertexT) (g : Graph n) (mask : AffinityMask n) :
    Except Abort VertexT :=
  lowestContainingVertexFrom S g mask g.numVertices g.mRootVertex

namespace Graph

/-- There is a CHILD edge from `u` to `v` that the search may follow, `v` being
eligible. -/
def EligibleChild (g : Graph n) (mask : AffinityMask n) (u v : VertexT) : Prop :=
  g.Child u v ∧ g.eligible mask v = true

/-- The search may go from `u` to `v`, a candidate with the fewest CPUs. -/
def Descends (g : Graph n) (mask : AffinityMask n) (u v : VertexT) : Prop :=
  g.EligibleChild mask u v ∧ ∀ w, g.EligibleChild mask u w → g.maskCount v ≤ g.maskCount w

variable {g : Graph n} {mask : AffinityMask n} {u v : VertexT}

lemma mem_candidates : v ∈ g.candidates mask u ↔ g.EligibleChild mask u v := by
  rw [candidates, List.mem_filter, mem_childTargets]
  rfl

lemma candidates_eq_nil : g.candidates mask u = [] ↔ ∀ v, ¬ g.EligibleChild mask u v := by
  rw [List.eq_nil_iff_forall_not_mem]
  exact forall_congr' fun v => not_congr mem_candidates

lemma reach_eligible_of_descends (h : ReflTransGen (g.Descends mask) u v) :
    ReflTransGen (g.EligibleChild mask) u v :=
  ReflTransGen.mono (fun _ _ hstep => hstep.1) _ _ h

lemma reach_child_of_eligible (h : ReflTransGen (g.EligibleChild mask) u v) :
    ReflTransGen g.Child u v :=
  ReflTransGen.mono (fun _ _ hstep => hstep.1) _ _ h

lemma Descends.child (h : g.Descends mask u v) : g.Child u v := h.1.1

/-- What sorting brings to the front is a vertex the search may go to. -/
lemma descends_sort (S : StdSort VertexT) {c : VertexT} {cs : List VertexT}
    (h : g.candidates mask u = c :: cs) :
    g.Descends mask u ((S.sort g.maskCount (c :: cs)).headD c) := by
  have hne : S.sort g.maskCount (c :: cs) ≠ [] := by
    intro hnil
    have hlength := (S.perm g.maskCount (c :: cs)).length_eq
    rw [hnil] at hlength
    exact absurd hlength (by simp)
  obtain ⟨a, as, hsort⟩ := List.exists_cons_of_ne_nil hne
  obtain ⟨hmem, hleast⟩ := S.head_least g.maskCount hsort
  rw [hsort, List.headD_cons]
  rw [← h] at hmem hleast
  exact ⟨mem_candidates.mp hmem, fun w hw => hleast w (mem_candidates.mpr hw)⟩

end Graph

section Search

variable {S : StdSort VertexT} {g : Graph n} {mask : AffinityMask n}

/-- **A result of the search is the end of a descent**: it exists, steps of the
search lead to it and no candidate is left there. -/
theorem lowestContainingVertexFrom_spec {fuel : ℕ} {u v : VertexT}
    (h : lowestContainingVertexFrom S g mask fuel u = .ok v) :
    v < g.numVertices ∧ ReflTransGen (g.Descends mask) u v ∧ g.candidates mask v = [] := by
  induction fuel generalizing u with
  | zero =>
      rw [lowestContainingVertexFrom] at h
      split at h
      · cases h
      · next hu =>
          split at h
          · next hnil =>
              cases h
              exact ⟨not_le.mp hu, .refl, hnil⟩
          · cases h
  | succ fuel ih =>
      rw [lowestContainingVertexFrom] at h
      split at h
      · cases h
      · next hu =>
          split at h
          · next hnil =>
              cases h
              exact ⟨not_le.mp hu, .refl, hnil⟩
          · next c cs hcs =>
              obtain ⟨hlt, hreach, hnil⟩ := ih h
              exact ⟨hlt, .head (Graph.descends_sort S hcs) hreach, hnil⟩

/-- More fuel does not change a result. -/
lemma lowestContainingVertexFrom_mono {fuel fuel' : ℕ} (hle : fuel ≤ fuel') {u v : VertexT}
    (h : lowestContainingVertexFrom S g mask fuel u = .ok v) :
    lowestContainingVertexFrom S g mask fuel' u = .ok v := by
  induction fuel generalizing u fuel' with
  | zero =>
      rw [lowestContainingVertexFrom] at h ⊢
      split at h
      · cases h
      · next hu =>
          rw [if_neg hu]
          split at h
          · exact h
          · cases h
  | succ fuel ih =>
      obtain ⟨fuel', rfl⟩ := Nat.exists_eq_succ_of_ne_zero (Nat.pos_iff_ne_zero.mp
        (Nat.zero_lt_of_lt hle))
      rw [lowestContainingVertexFrom] at h ⊢
      split at h
      · cases h
      · next hu =>
          rw [if_neg hu]
          split at h
          · exact h
          · exact ih (Nat.le_of_succ_le_succ hle) h

/-- Along a rank that CHILD edges lower, fuel from the rank on suffices. -/
lemma exists_lowestContainingVertexFrom (S : StdSort VertexT) (mask : AffinityMask n)
    {rank : VertexT → ℕ}
    (hrank : ∀ u v, g.Child u v → rank v < rank u)
    (hlt : ∀ u v, g.Child u v → v < g.numVertices) {fuel : ℕ} {u : VertexT}
    (hu : u < g.numVertices) (hfuel : rank u ≤ fuel) :
    ∃ v, lowestContainingVertexFrom S g mask fuel u = .ok v := by
  induction fuel generalizing u with
  | zero =>
      rw [lowestContainingVertexFrom, if_neg (not_le.mpr hu)]
      split
      · exact ⟨u, rfl⟩
      · next c cs hcs =>
          have hstep := (Graph.descends_sort S hcs).child
          have := hrank _ _ hstep
          omega
  | succ fuel ih =>
      rw [lowestContainingVertexFrom, if_neg (not_le.mpr hu)]
      split
      · exact ⟨u, rfl⟩
      · next c cs hcs =>
          have hstep := (Graph.descends_sort S hcs).child
          have := hrank _ _ hstep
          exact ih (hlt _ _ hstep) (by omega)

/-- **The search returns** when the root vertex exists, CHILD edges join existing
vertices and make no cycle. -/
theorem exists_lowestContainingVertex (S : StdSort VertexT) (mask : AffinityMask n)
    (hroot : g.mRootVertex < g.numVertices)
    (hlt : ∀ u v, g.Child u v → v < g.numVertices) (hacyclic : Acyclic g.Child) :
    ∃ v, lowestContainingVertex S g mask = .ok v := by
  obtain ⟨rank, hrank, hbound⟩ := exists_rank hacyclic hlt
  exact exists_lowestContainingVertexFrom S mask hrank hlt hroot (hbound _ hroot).le

/-- The search accesses no vertex that does not exist. -/
lemma lowestContainingVertexFrom_ne_outOfRange (S : StdSort VertexT) (mask : AffinityMask n)
    (hlt : ∀ u v, g.Child u v → v < g.numVertices) (fuel : ℕ) {u : VertexT}
    (hu : u < g.numVertices) :
    lowestContainingVertexFrom S g mask fuel u ≠ .error .outOfRange := by
  induction fuel generalizing u with
  | zero =>
      rw [lowestContainingVertexFrom, if_neg (not_le.mpr hu)]
      split
      · exact fun h => by cases h
      · exact fun h => by cases h
  | succ fuel ih =>
      rw [lowestContainingVertexFrom, if_neg (not_le.mpr hu)]
      split
      · exact fun h => by cases h
      · next c cs hcs => exact ih (hlt _ _ (Graph.descends_sort S hcs).child)

/-- A result of the search lies below the root vertex. -/
theorem lowestContainingVertex_spec {v : VertexT}
    (h : lowestContainingVertex S g mask = .ok v) :
    v < g.numVertices ∧ ReflTransGen (g.Descends mask) g.mRootVertex v ∧
      g.candidates mask v = [] :=
  lowestContainingVertexFrom_spec h

end Search

end Yloc
