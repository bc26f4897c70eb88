import Yloc.Topology

/-!
Which changes of the topology can be exchanged.

Two topologies are alike (`Topology.Alike`) when they have the same keys, the same
edges up to their order, and at each key vertices of the same type and
description with the same adapters up to their order (`SameVertex`).

* `TopologyOp.respects_put` and the lemmas after it: the operations take alike
  topologies to alike topologies.
* `TopologyOp.commute_put`: changes of one vertex can be exchanged where the
  functions can.
* `TopologyOp.commute_put_arcs`, `TopologyOp.commute_appends`,
  `TopologyOp.commute_childIfNew`: changes of the edges can be exchanged with
  changes of vertices, and with one another unless one adds what the other tests.
-/

namespace Yloc

variable {n : ℕ}

/-- The same vertex, up to the order of its adapters. -/
structure SameVertex (v w : Vertex n) : Prop where
  type : v.mType = w.mType
  description : v.mDescription = w.mDescription
  adapters : v.mAdapters.Perm w.mAdapters

namespace SameVertex

variable {v w : Vertex n}

lemma equivalence : Equivalence (SameVertex (n := n)) where
  refl _ := ⟨rfl, rfl, List.Perm.refl _⟩
  symm h := ⟨h.type.symm, h.description.symm, h.adapters.symm⟩
  trans h h' := ⟨h.type.trans h'.type, h.description.trans h'.description,
    h.adapters.trans h'.adapters⟩

lemma addAdapter (h : SameVertex v w) (a : Adapter n) :
    SameVertex (v.addAdapter a) (w.addAdapter a) :=
  ⟨h.type, h.description, h.adapters.append_right [a]⟩

lemma describe (h : SameVertex v w) (s : String) : SameVertex (v.describe s) (w.describe s) :=
  ⟨h.type, rfl, h.adapters⟩

lemma describeIfEmpty (h : SameVertex v w) (s : String) :
    SameVertex (v.describeIfEmpty s) (w.describeIfEmpty s) := by
  rw [GraphElement.describeIfEmpty, GraphElement.describeIfEmpty, h.description]
  split
  · exact h.describe s
  · exact h

lemma setType (h : SameVertex v w) (t : Component) : SameVertex (v.setType t) (w.setType t) :=
  ⟨rfl, h.description, h.adapters⟩

lemma setTypeIfUnknown (h : SameVertex v w) (t : Component) :
    SameVertex (v.setTypeIfUnknown t) (w.setTypeIfUnknown t) := by
  rw [GraphElement.setTypeIfUnknown, GraphElement.setTypeIfUnknown, h.type]
  split
  · exact h.setType t
  · exact h

end SameVertex

/-- The same topology, up to the orders of edges and adapters. -/
abbrev Topology.Alike (T T' : Topology n) : Prop := Keyed.Equiv SameVertex T T'

lemma Topology.alike_equivalence : Equivalence (Topology.Alike (n := n)) :=
  Keyed.Equiv.equivalence SameVertex.equivalence

lemma Topology.Alike.refl (T : Topology n) : T.Alike T := Topology.alike_equivalence.refl T

/-- Alike topologies have edges between the same keys. -/
lemma Topology.Alike.hasArc_eq {T T' : Topology n} (h : T.Alike T') (a b : Key) :
    T.hasArc a b = T'.hasArc a b := by
  rw [Bool.eq_iff_iff, Topology.hasArc_iff, Topology.hasArc_iff]
  exact exists_congr fun e => and_congr_left' h.arcs.mem_iff

namespace TopologyOp

variable {a b a' b' k k' : Key} {f f' : Vertex n → Vertex n} {op op' : TopologyOp n}
  {l l' : List (Arc Key EdgeType)}

/-- The operation adds the edges `l`. -/
def Appends (op : TopologyOp n) (l : List (Arc Key EdgeType)) : Prop :=
  ∀ T : Topology n, op.act T = { T with arcs := T.arcs ++ l }

lemma child_appends (a b : Key) :
    (child a b : TopologyOp n).Appends [⟨a, b, .child⟩, ⟨b, a, .parent⟩] := by
  intro T
  simp [act, Topology.addChild, Keyed.connect]

lemma peer_appends (a b : Key) :
    (peer a b : TopologyOp n).Appends
      [⟨a, b, .gpuInterconnect⟩, ⟨b, a, .gpuInterconnect⟩] := by
  intro T
  simp [act, Topology.addPeer, Keyed.connect]

/-! ### Alike topologies stay alike -/

lemma respects_put (k : Key) (hf : ∀ v w, SameVertex v w → SameVertex (f v) (f w)) :
    Respects Topology.Alike act (put k f) := by
  intro T T' h
  refine ⟨fun j => ?_, h.arcs⟩
  by_cases hj : j = k
  · subst hj
    rw [put_info_self, put_info_self]
    exact .some (hf _ _ ((h.info j).getD (SameVertex.equivalence.refl _)))
  · rw [put_info_of_ne hj, put_info_of_ne hj]
    exact h.info j

lemma Appends.respects (h : op.Appends l) : Respects Topology.Alike act op := by
  intro T T' hT
  rw [h T, h T']
  exact ⟨hT.info, hT.arcs.append_right l⟩

lemma respects_childIfNew (a b : Key) :
    Respects Topology.Alike act (childIfNew a b : TopologyOp n) := by
  intro T T' h
  rw [act, act, h.hasArc_eq]
  split
  · exact h
  · exact (child_appends a b).respects T T' h

/-! ### Exchanges -/

/-- Changes of vertices can be exchanged if they can at the same vertex. -/
theorem commute_put (h : k = k' → ∀ v, SameVertex (f (f' v)) (f' (f v))) :
    CommuteUpTo Topology.Alike act (put k f) (put k' f') := by
  intro T
  refine ⟨fun j => ?_, List.Perm.refl _⟩
  by_cases hk : k = k'
  · subst hk
    by_cases hj : j = k
    · subst hj
      simp only [put_info_self, Option.getD_some]
      exact .some (h rfl _)
    · simp only [put_info_of_ne hj]
      exact (Topology.Alike.refl T).info j
  · have hrefl := (Topology.Alike.refl ((put k f).act ((put k' f').act T))).info j
    have heq : ((put k f).act ((put k' f').act T)).info j =
        ((put k' f').act ((put k f).act T)).info j := by
      by_cases hj : j = k
      · subst hj
        rw [put_info_self, put_info_of_ne hk, put_info_of_ne hk, put_info_self]
      · by_cases hj' : j = k'
        · subst hj'
          rw [put_info_of_ne hj, put_info_self, put_info_self, put_info_of_ne hj]
        · rw [put_info_of_ne hj, put_info_of_ne hj', put_info_of_ne hj', put_info_of_ne hj]
    rw [heq]
    exact (Topology.Alike.refl _).info j

/-- Changes of vertices and of edges can be exchanged. -/
lemma commute_put_appends (h : op.Appends l) :
    CommuteUpTo Topology.Alike act (put k f) op := by
  intro T
  rw [h T, h]
  exact Topology.Alike.refl _

lemma commute_put_childIfNew (k : Key) (f : Vertex n → Vertex n) (a b : Key) :
    CommuteUpTo Topology.Alike act (put k f) (childIfNew a b) := by
  intro T
  have harc : ((put k f).act T).hasArc a b = T.hasArc a b := rfl
  rw [childIfNew_act, childIfNew_act, harc]
  split
  · exact Topology.Alike.refl _
  · exact commute_put_appends (child_appends a b) T

/-- Edges can be added in any order. -/
lemma commute_appends (h : op.Appends l) (h' : op'.Appends l') :
    CommuteUpTo Topology.Alike act op op' := by
  intro T
  rw [h' T, h, h T, h']
  refine ⟨(Topology.Alike.refl T).info, ?_⟩
  simp only [List.append_assoc]
  exact (List.perm_append_comm).append_left _

/-- Edges can be added before or after a test that does not look for them. -/
lemma commute_childIfNew (h : op.Appends l) (hl : ∀ e ∈ l, ¬ (e.source = a ∧ e.target = b)) :
    CommuteUpTo Topology.Alike act op (childIfNew a b) := by
  intro T
  have harc : (op.act T).hasArc a b = T.hasArc a b := by
    rw [h T, Bool.eq_iff_iff, Topology.hasArc_iff, Topology.hasArc_iff]
    constructor
    · rintro ⟨e, he, hends⟩
      rcases List.mem_append.mp he with he | he
      · exact ⟨e, he, hends⟩
      · exact absurd hends (hl e he)
    · rintro ⟨e, he, hends⟩
      exact ⟨e, List.mem_append_left _ he, hends⟩
  rw [childIfNew_act, childIfNew_act, harc]
  split
  · exact Topology.Alike.refl _
  · exact commute_appends h (child_appends a b) T

end TopologyOp

end Yloc
