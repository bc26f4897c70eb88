import Yloc.Shape
import Mathlib.Data.List.ReduceOption

/-!
`ModuleHwloc` embeds the tree of hwloc in the graph.

The objects of hwloc are counted in the order in which they are visited, the
machine being number zero, so that the children of an object come directly after
it. `HwlocEmbedding` says what `ModuleHwloc::init_graph` leaves: every object has a
vertex of its own, the new edges are one CHILD and one PARENT edge for each object
and its parent, and everything else stays. `HwlocSource.initGraph_embeds` proves it
on every graph in order, whatever other modules have done to it.

* `HwlocChildren.pairs`, `HwlocChildren.childPositions`: parents and children by
  their positions, and `HwlocChildren.pairs_filter`, which connects the two.
* `HwlocApi.hwlocOps_childArc`: the edges of the module are those pairs.
-/

namespace Yloc

variable {n : ℕ}

/-! ### Positions in the tree -/

namespace HwlocChildren

/-- The positions of siblings, the first being at `s`. -/
def siblings : ℕ → HwlocChildren → List ℕ
  | _, nil => []
  | s, cons _ children next => s :: siblings (s + 1 + children.objects.length) next

/-- The children of the object at the position `q`, positions counted from `s` on. -/
def childrenAt : ℕ → HwlocChildren → ℕ → HwlocChildren
  | _, nil, _ => nil
  | s, cons _ children next, q =>
      if q = s then children
      else if q < s + 1 + children.objects.length then childrenAt (s + 1) children q
      else childrenAt (s + 1 + children.objects.length) next q

/-- The positions of the children of the object at the position `q`, in their order. -/
def childPositions (s : ℕ) (objects : HwlocChildren) (q : ℕ) : List ℕ :=
  siblings (q + 1) (objects.childrenAt s q)

/-- The positions of every object and its parent, `p` being that of the parent of
the siblings. -/
def pairs : ℕ → ℕ → HwlocChildren → List (ℕ × ℕ)
  | _, _, nil => []
  | s, p, cons _ children next =>
      (p, s) :: (pairs (s + 1) s children ++ pairs (s + 1 + children.objects.length) p next)

/-- No position before `s` is used. -/
lemma childrenAt_of_lt {s q : ℕ} (h : q < s) (objects : HwlocChildren) :
    objects.childrenAt s q = nil := by
  induction objects generalizing s with
  | nil => rfl
  | cons obj children next ihc ihn =>
      rw [childrenAt, if_neg (by omega), if_pos (by omega)]
      exact ihc (by omega)

/-- No position from the number of objects on is used. -/
lemma childrenAt_of_le {s q : ℕ} {objects : HwlocChildren} (h : s + objects.objects.length ≤ q) :
    objects.childrenAt s q = nil := by
  induction objects generalizing s with
  | nil => rfl
  | cons obj children next ihc ihn =>
      rw [HwlocChildren.objects, List.length_cons, List.length_append] at h
      rw [childrenAt, if_neg (by omega), if_neg (by omega)]
      exact ihn (by omega)

/-- The positions in the pairs. -/
lemma mem_pairs {s p : ℕ} {objects : HwlocChildren} {e : ℕ × ℕ} (h : e ∈ objects.pairs s p) :
    (e.1 = p ∨ s ≤ e.1 ∧ e.1 < s + objects.objects.length) ∧
      s ≤ e.2 ∧ e.2 < s + objects.objects.length := by
  induction objects generalizing s p with
  | nil => cases h
  | cons obj children next ihc ihn =>
      rw [HwlocChildren.objects, List.length_cons, List.length_append]
      rcases List.mem_cons.mp h with rfl | h
      · exact ⟨.inl rfl, by omega, by omega⟩
      · rcases List.mem_append.mp h with h | h
        · have := ihc h
          omega
        · have := ihn h
          omega

/-- **The pairs with one parent lead to its children**, in their order. -/
theorem pairs_filter {s p : ℕ} (hp : p < s) (objects : HwlocChildren) (q : ℕ) :
    ((objects.pairs s p).filter fun e => e.1 = q).map Prod.snd =
      if q = p then objects.siblings s else objects.childPositions s q := by
  induction objects generalizing s p with
  | nil => simp [pairs, siblings, childPositions, childrenAt]
  | cons obj children next ihc ihn =>
      have hchildren := ihc (s := s + 1) (p := s) (by omega)
      have hnext := ihn (s := s + 1 + children.objects.length) (p := p) (by omega)
      rw [pairs, List.filter_cons, List.filter_append]
      by_cases hqp : q = p
      · -- the parent of the siblings: the object itself and those after it
        subst hqp
        rw [if_neg (by omega), childPositions, childrenAt_of_lt (by omega)] at hchildren
        rw [if_pos rfl] at hnext
        rw [if_pos (by simp), if_pos rfl, List.map_cons, List.map_append, hchildren, hnext]
        rfl
      · rw [if_neg hqp] at hnext ⊢
        rw [if_neg (by simpa using Ne.symm hqp), List.map_append, hchildren, hnext]
        rw [childPositions, childPositions, childPositions, childrenAt]
        by_cases hqs : q = s
        · -- the object itself
          subst hqs
          rw [if_pos rfl, if_pos rfl, childrenAt_of_lt (by omega)]
          exact List.append_nil _
        · rw [if_neg hqs, if_neg hqs]
          by_cases hlt : q < s + 1 + children.objects.length
          · rw [if_pos hlt, childrenAt_of_lt hlt]
            exact List.append_nil _
          · rw [if_neg hlt, childrenAt_of_le (not_lt.mp hlt)]
            rfl

end HwlocChildren

namespace HwlocApi

/-- The identifier under which an object is looked up, if it has one. -/
def identifier (api : HwlocApi) (obj : HwlocObj) : Option Identifier :=
  if (api.hwloc2YlocType obj).isA .pciDevice then (api.bdfid obj).map bdfidId else none

end HwlocApi

namespace HwlocSource

/-- The objects in the order in which they are visited. -/
def objects (source : HwlocSource) : List HwlocObj := source.root :: source.children.objects

/-- The machine with its objects. -/
def tree (source : HwlocSource) : HwlocChildren := .cons source.root source.children .nil

/-- The identifiers of the objects, where they have any. -/
def identifiers (source : HwlocSource) : List (Option Identifier) :=
  some (machineId source.hostname) :: source.children.objects.map source.api.identifier

end HwlocSource

/-- The graph `g'` is the graph `g` with the tree of hwloc laid into it, the object at
the position `i` at the vertex `phi i`. -/
structure HwlocEmbedding (source : HwlocSource) (g g' : Graph n) (phi : ℕ → VertexT) :
    Prop where
  /-- Every object has a vertex of its own. -/
  inj : Set.InjOn phi (Set.Iio source.objects.length)
  lt : ∀ i < source.objects.length, phi i < g'.numVertices
  /-- The new edges are a CHILD and a PARENT edge for each object and its parent. -/
  edges : g'.edges = g.edges ++ (source.children.pairs 1 0).flatMap fun e =>
    [⟨phi e.1, phi e.2, .child⟩, ⟨phi e.2, phi e.1, .parent⟩]
  /-- The new CHILD edges out of a vertex follow the order of the children. -/
  childOrder : ∀ i < source.objects.length,
    ((g'.edges.drop g.edges.length).filter fun e => e.source = phi i ∧ e.label = .child).map
      Arc.target = (source.tree.childPositions 0 i).map phi
  /-- Every object adds its adapter. -/
  adapters : ∀ i obj, source.objects[i]? = some obj →
    (g'.vertex (phi i)).mAdapters = (g.vertex (phi i)).mAdapters ++ [source.api.hwlocAdapter n obj]
  /-- Other vertices stay as they are. -/
  frame : ∀ v, (∀ i < source.objects.length, phi i ≠ v) → g'.vertex v = g.vertex v
  /-- Types that are known stay. -/
  type : ∀ v, (g.vertex v).mType ≠ .unknownComponentType → (g'.vertex v).mType = (g.vertex v).mType
  /-- Descriptions stay, apart from that of the root vertex. -/
  description : ∀ v, v ≠ phi 0 → (g.vertex v).mDescription ≠ "" →
    (g'.vertex v).mDescription = (g.vertex v).mDescription
  /-- There is a new vertex for each identifier that was not bound and for each object
  without an identifier. -/
  numVertices : g'.numVertices = g.numVertices +
    ((source.identifiers.reduceOption.countP fun id => (g.lookup id).isNone) +
      source.identifiers.countP Option.isNone)
  /-- The value of a bdfid is taken only where there is one. -/
  bdfid : ∀ obj ∈ source.objects, (source.api.hwloc2YlocType obj).isA .pciDevice = true →
    (source.api.bdfid obj).isSome

/-! ### The operations at the positions -/

section

variable {api : HwlocApi}

lemma HwlocApi.hwlocKey_eq (i : ℕ) (obj : HwlocObj) :
    api.hwlocKey i obj = (api.identifier obj).elim (.unnamed i) .name := by
  rw [hwlocKey, identifier]
  split
  · next hpci =>
      obtain ⟨b, hb⟩ := Option.isSome_iff_exists.mp (bdfid_isSome hpci)
      simp [hb]
  · rfl

lemma HwlocApi.hwlocKeys_getElem? (s : ℕ) (children : HwlocChildren) (i : ℕ) :
    (api.hwlocKeys s children)[i]? = children.objects[i]?.map (api.hwlocKey (s + i)) := by
  simp [hwlocKeys, List.getElem?_zipIdx, Function.comp_def]

/-- **The edges of the module join every object to its parent**: `key` is the key at a
position, and the operations number the objects by `t` more than their positions. -/
theorem HwlocApi.hwlocOps_childArc (key : ℕ → Key) (t p : ℕ) {s : ℕ} {children : HwlocChildren}
    (hkey : ∀ i obj, children.objects[i]? = some obj →
      key (s + i) = api.hwlocKey (t + (s + i)) obj) :
    (api.hwlocOps (t + s) (key p) children : List (TopologyOp n)).filterMap TopologyOp.childArc =
      (children.pairs s p).map (Prod.map key key) := by
  induction children generalizing s p with
  | nil => rfl
  | cons obj children next ihc ihn =>
      have hobj : api.hwlocKey (t + s) obj = key s := (hkey 0 obj rfl).symm
      have hchildren := ihc s (s := s + 1) fun i obj' hi => by
        have hlt := (List.getElem?_eq_some_iff.mp hi).1
        rw [show s + 1 + i = s + (i + 1) by omega]
        refine hkey (i + 1) obj' ?_
        rw [HwlocChildren.objects, List.getElem?_cons_succ, List.getElem?_append_left hlt, hi]
      have hnext := ihn p (s := s + 1 + children.objects.length) fun i obj' hi => by
        rw [show s + 1 + children.objects.length + i = s + (children.objects.length + i + 1) by
          omega]
        refine hkey _ obj' ?_
        rw [HwlocChildren.objects, List.getElem?_cons_succ,
          List.getElem?_append_right (Nat.le_add_right _ _), Nat.add_sub_cancel_left, hi]
      rw [hwlocOps, HwlocChildren.pairs, hobj, show t + s + 1 = t + (s + 1) by omega,
        show t + (s + 1) + children.objects.length = t + (s + 1 + children.objects.length) by omega]
      simp only [List.filterMap_cons, TopologyOp.childArc, List.filterMap_append, hchildren, hnext,
        List.map_cons, List.map_append, Prod.map_apply]

end

namespace HwlocSource

variable {source : HwlocSource}

lemma allKeys_length (s : ℕ) : (source.allKeys s).length = source.objects.length := by
  simp [allKeys, objects, HwlocApi.hwlocKeys]

lemma ops_putKey (s : ℕ) :
    (source.ops s : List (TopologyOp n)).filterMap TopologyOp.putKey = source.allKeys s := by
  rw [ops, List.filterMap_cons, HwlocApi.hwlocOps_putKey]
  rfl

/-- What the module puts on the key of an object: its adapter, and neither a type nor
a description where there is one, save for the description of the machine. -/
lemma exists_put (s : ℕ) {i : ℕ} {obj : HwlocObj} (h : source.objects[i]? = some obj) :
    ∃ k f, (source.allKeys s)[i]? = some k ∧ .put k f ∈ (source.ops s : List (TopologyOp n)) ∧
      (∀ v, (f v).mAdapters = v.mAdapters ++ [source.api.hwlocAdapter n obj]) ∧
      (∀ v, v.mType ≠ .unknownComponentType → (f v).mType = v.mType) ∧
      (i ≠ 0 → ∀ v, v.mDescription ≠ "" → (f v).mDescription = v.mDescription) := by
  cases i with
  | zero =>
      obtain rfl := Option.some.inj h
      refine ⟨_, source.contributeRoot, rfl, List.mem_cons_self, fun v => ?_, fun v hv => ?_,
        fun hne => absurd rfl hne⟩
      · simp [contributeRoot]
      · have hkeep := GraphElement.setTypeIfUnknown_of_ne
          (v := (v.describe source.hostname).addAdapter (source.api.hwlocAdapter n source.root))
          hv (source.api.hwloc2YlocType source.root)
        rw [contributeRoot, hkeep]
        rfl
  | succ i =>
      rw [objects, List.getElem?_cons_succ] at h
      refine ⟨source.api.hwlocKey (s + i) obj, source.api.contribute obj, ?_,
        List.mem_cons_of_mem _ (source.api.put_mem_hwlocOps h s _), fun v => ?_, fun v hv => ?_,
        fun _ v hv => ?_⟩
      · rw [allKeys, List.getElem?_cons_succ, HwlocApi.hwlocKeys_getElem?, h, Option.map_some]
      · simp [HwlocApi.contribute]
      · rw [HwlocApi.contribute_mType, if_neg hv]
      · rw [HwlocApi.contribute, GraphElement.setTypeIfUnknown_mDescription,
          GraphElement.describeIfEmpty_of_ne hv]
        rfl

end HwlocSource

/-! ### The embedding -/

/-- The CHILD edges out of one vertex among those of a list of pairs. -/
lemma childTargets_pairs {phi : ℕ → VertexT} {N : ℕ} (hphi : Set.InjOn phi (Set.Iio N)) {i : ℕ}
    (hi : i < N) {pairs : List (ℕ × ℕ)} (hpairs : ∀ e ∈ pairs, e.1 < N) :
    ((pairs.flatMap fun e => ([⟨phi e.1, phi e.2, .child⟩, ⟨phi e.2, phi e.1, .parent⟩] :
        List Edge)).filter fun e => e.source = phi i ∧ e.label = .child).map Arc.target =
      ((pairs.filter fun e => e.1 = i).map Prod.snd).map phi := by
  induction pairs with
  | nil => rfl
  | cons e pairs ih =>
      have hrest := ih fun e' he' => hpairs e' (List.mem_cons_of_mem _ he')
      have hsource : phi e.1 = phi i ↔ e.1 = i :=
        ⟨fun heq => hphi (hpairs e List.mem_cons_self) hi heq, fun heq => by rw [heq]⟩
      rw [List.flatMap_cons, List.filter_append, List.map_append, hrest, List.filter_cons]
      by_cases hei : e.1 = i
      · simp [hei]
      · simp [hei, hsource]

namespace HwlocSource

variable {source : HwlocSource}

/-- The children of the object at a position, read off the pairs. -/
lemma pairs_filter_eq {i : ℕ} (hi : i < source.objects.length) :
    ((source.children.pairs 1 0).filter fun e => e.1 = i).map Prod.snd =
      source.tree.childPositions 0 i := by
  rw [objects, List.length_cons] at hi
  rw [HwlocChildren.pairs_filter Nat.one_pos, HwlocChildren.childPositions,
    HwlocChildren.childPositions, tree, HwlocChildren.childrenAt]
  by_cases hzero : i = 0
  · rw [if_pos hzero, if_pos hzero, hzero]
  · rw [if_neg hzero, if_neg hzero, if_pos (by omega)]

variable {φ : Key → Option VertexT} {g : Graph n} {T : Topology n}

/-- The objects that get a new vertex. -/
lemma countP_hwlocKeys (h : Represents φ g T) (api : HwlocApi) (objects : List HwlocObj) {s : ℕ}
    (hs : T.FreshFrom s) :
    ((objects.zipIdx s).map fun p => api.hwlocKey p.2 p.1).countP (fun k => (φ k).isNone) =
      ((objects.map api.identifier).reduceOption.countP fun id => (g.lookup id).isNone) +
        (objects.map api.identifier).countP Option.isNone := by
  induction objects generalizing s with
  | nil => rfl
  | cons obj objects ih =>
      have hrest := ih fun i hi => hs i (Nat.le_of_succ_le hi)
      rw [List.zipIdx_cons, List.map_cons, List.countP_cons, hrest, List.map_cons,
        HwlocApi.hwlocKey_eq]
      cases hid : api.identifier obj with
      | none =>
          have hnone : φ (.unnamed s) = none := h.info_eq_none_iff.mp (hs s le_rfl)
          rw [List.reduceOption_cons_of_none, List.countP_cons]
          simp [hnone]
          omega
      | some id =>
          rw [List.reduceOption_cons_of_some, List.countP_cons, List.countP_cons, h.ids]
          exact Nat.add_right_comm _ _ _

/-- The keys of the machine and the objects that get a new vertex. -/
lemma countP_allKeys (h : Represents φ g T) {s : ℕ} (hs : T.FreshFrom s) :
    (source.allKeys s).countP (fun k => (φ k).isNone) =
      (source.identifiers.reduceOption.countP fun id => (g.lookup id).isNone) +
        source.identifiers.countP Option.isNone := by
  have hobjects := countP_hwlocKeys h source.api source.children.objects hs
  rw [allKeys, identifiers, List.countP_cons, HwlocApi.hwlocKeys, hobjects,
    List.reduceOption_cons_of_some, List.countP_cons, List.countP_cons, h.ids]
  exact Nat.add_right_comm _ _ _

end HwlocSource

section Embedding

variable {source : HwlocSource} {s : ℕ} {φ φ' : Key → Option VertexT} {g g' : Graph n}
  {T : Topology n}

/-- The key of the object at the position `i`. -/
def HwlocSource.keyAt (source : HwlocSource) (s i : ℕ) : Key :=
  ((source.allKeys s)[i]?).getD (machineKey source.hostname)

namespace HwlocSource

lemma allKeys_getElem? {i : ℕ} (hi : i < source.objects.length) :
    (source.allKeys s)[i]? = some (source.keyAt s i) := by
  rw [← allKeys_length s] at hi
  rw [keyAt, List.getElem?_eq_getElem hi, Option.getD_some]

lemma keyAt_succ {i : ℕ} {obj : HwlocObj} (h : source.children.objects[i]? = some obj) :
    source.keyAt s (i + 1) = source.api.hwlocKey (s + i) obj := by
  rw [keyAt, allKeys, List.getElem?_cons_succ, HwlocApi.hwlocKeys_getElem?, h]
  rfl

/-- The keys after the module are those before and those of the objects. -/
lemma run_ops_info_isSome {k : Key} : ((T.run (source.ops s)).info k).isSome ↔
    (T.info k).isSome ∨ k ∈ source.allKeys s := by
  rw [Topology.run_info_isSome, ops_putKey]

/-- The edges of the module. -/
lemma run_ops_arcs (t : ℕ) : (T.run (source.ops (t + 1))).arcs = T.arcs ++
    (source.children.pairs 1 0).flatMap fun e =>
      [⟨source.keyAt (t + 1) e.1, source.keyAt (t + 1) e.2, .child⟩,
        ⟨source.keyAt (t + 1) e.2, source.keyAt (t + 1) e.1, .parent⟩] := by
  have harcs : (source.ops (t + 1) : List (TopologyOp n)).filterMap TopologyOp.childArc =
      (source.children.pairs 1 0).map (Prod.map (source.keyAt (t + 1)) (source.keyAt (t + 1))) := by
    refine HwlocApi.hwlocOps_childArc (source.keyAt (t + 1)) t 0 fun i obj hi => ?_
    rw [Nat.add_comm 1 i, keyAt_succ hi]
    congr 1
    omega
  rw [Topology.run_arcs_of_child fun op hop => ?_, harcs, List.flatMap_map]
  · rfl
  · rcases List.mem_cons.mp hop with rfl | hop
    · exact .inl ⟨_, _, rfl⟩
    · rcases HwlocApi.mem_hwlocOps hop with ⟨obj, i, -, rfl⟩ | h
      · exact .inl ⟨_, _, rfl⟩
      · exact .inr h

variable (h' : Represents φ' g' (T.run (source.ops s)))

include h'

/-- Every object has a vertex. -/
lemma place_keyAt {i : ℕ} (hi : i < source.objects.length) :
    φ' (source.keyAt s i) = some (place φ' (source.keyAt s i)) := by
  have hmem := List.mem_of_getElem? (allKeys_getElem? (s := s) hi)
  obtain ⟨v, hv⟩ := h'.exists_place (run_ops_info_isSome.mpr (.inr hmem))
  rw [hv, place_eq hv]

variable (hbdfids : source.DistinctBdfids)

include hbdfids

/-- The vertices of the objects are different. -/
lemma injOn_place : Set.InjOn (fun i => place φ' (source.keyAt s i))
    (Set.Iio source.objects.length) := by
  intro i hi j hj hij
  have hkeys : source.keyAt s i = source.keyAt s j :=
    h'.inj _ _ _ (place_keyAt h' hi) ((place_keyAt h' hj).trans (congrArg some hij.symm))
  refine (List.getElem?_inj (by rwa [allKeys_length]) (allKeys_nodup hbdfids s)).mp ?_
  rw [allKeys_getElem? hi, allKeys_getElem? hj, hkeys]

variable (h : Represents φ g T) (hext : Extends φ φ')

include h hext

/-- The vertex of an object is changed by what the module puts on its key. -/
lemma vertex_place {i : ℕ} {obj : HwlocObj} (hi : source.objects[i]? = some obj) :
    ∃ f : Vertex n → Vertex n,
      g'.vertex (place φ' (source.keyAt s i)) = f (g.vertex (place φ' (source.keyAt s i))) ∧
      (∀ v, (f v).mAdapters = v.mAdapters ++ [source.api.hwlocAdapter n obj]) ∧
      (∀ v, v.mType ≠ .unknownComponentType → (f v).mType = v.mType) ∧
      (i ≠ 0 → ∀ v, v.mDescription ≠ "" → (f v).mDescription = v.mDescription) := by
  have hlt := (List.getElem?_eq_some_iff.mp hi).1
  have hplace := place_keyAt h' hlt
  obtain ⟨k, f, hk, hput, hf⟩ := exists_put (n := n) s hi
  obtain rfl : source.keyAt s i = k := Option.some.inj ((allKeys_getElem? hlt).symm.trans hk)
  refine ⟨f, Option.some.inj ?_, hf⟩
  have hnodup : ((source.ops s : List (TopologyOp n)).filterMap TopologyOp.putKey).Nodup := by
    rw [ops_putKey]
    exact allKeys_nodup hbdfids s
  calc some (g'.vertex (place φ' (source.keyAt s i)))
      = (T.run (source.ops s)).info (source.keyAt s i) := (h'.info_vertex hplace).symm
    _ = some (f ((T.info (source.keyAt s i)).getD {})) := Topology.run_info_of_put hnodup hput
    _ = some (f (g.vertex (place φ' (source.keyAt s i)))) := by rw [h.getD_info h' hext hplace]

omit hbdfids

/-- Other vertices stay. -/
lemma vertex_of_ne_place {v : VertexT}
    (hv : ∀ i < source.objects.length, place φ' (source.keyAt s i) ≠ v) :
    g'.vertex v = g.vertex v := by
  refine h.vertex_run_of_ne h' hext fun k hmem hk => ?_
  rw [ops_putKey] at hmem
  obtain ⟨i, hi⟩ := List.getElem?_of_mem hmem
  have hlt : i < source.objects.length := by
    rw [← allKeys_length s]
    exact (List.getElem?_eq_some_iff.mp hi).1
  refine hv i hlt ?_
  rw [keyAt, hi, Option.getD_some, place_eq hk]

end HwlocSource

end Embedding

/-- **`ModuleHwloc` embeds the tree of hwloc**: a successful run lays it into the graph
and leaves everything else as it was. -/
theorem HwlocSource.initGraph_embeds {source : HwlocSource} (hbdfids : source.DistinctBdfids)
    {g g' : Graph n} (hg : g.WellFormed) (hrun : source.initGraph g = (.success, g')) :
    ∃ phi, HwlocEmbedding source g g' phi := by
  have hversion : source.checkHwlocApiVersion = .success := by
    by_contra hne
    rw [initGraph, if_pos hne] at hrun
    exact hne (Prod.mk.inj hrun).1
  obtain ⟨φ, T, h, hfresh⟩ := exists_represents hg
  have hs : T.FreshFrom (g.numVertices + 1) := fun i hi => hfresh i (Nat.le_of_succ_le hi)
  obtain ⟨φ', g'', hrun', h', hext, -⟩ := source.initGraph_represents h hs hversion
  obtain rfl : g'' = g' := (Prod.mk.inj (hrun'.symm.trans hrun)).2
  let phi : ℕ → VertexT := fun i => place φ' (source.keyAt (g.numVertices + 1) i)
  have hinj : Set.InjOn phi (Set.Iio source.objects.length) := injOn_place h' hbdfids
  have hedges : g''.edges = g.edges ++ (source.children.pairs 1 0).flatMap fun e =>
      [⟨phi e.1, phi e.2, .child⟩, ⟨phi e.2, phi e.1, .parent⟩] := by
    rw [h'.arcs, run_ops_arcs, List.map_append, ← h.map_place hext, List.map_flatMap]
    rfl
  -- a vertex is that of an object, or it stays
  have hcases : ∀ v, (∃ i < source.objects.length, phi i = v) ∨ g''.vertex v = g.vertex v := by
    intro v
    by_cases hv : ∃ i < source.objects.length, phi i = v
    · exact .inl hv
    · push Not at hv
      exact .inr (vertex_of_ne_place h' h hext hv)
  refine ⟨phi, hinj, fun i hi => h'.lt _ _ (place_keyAt h' hi), hedges, fun i hi => ?_,
    fun i obj hi => ?_, fun v hv => vertex_of_ne_place h' h hext hv, fun v hv => ?_,
    fun v hv hne => ?_, ?_, fun obj _ hpci => HwlocApi.bdfid_isSome hpci⟩
  · have hpairs : ∀ e ∈ source.children.pairs 1 0, e.1 < source.objects.length := by
      intro e he
      have := HwlocChildren.mem_pairs he
      rw [objects, List.length_cons]
      omega
    rw [hedges, List.drop_left, childTargets_pairs hinj hi hpairs, pairs_filter_eq hi]
  · obtain ⟨f, hvertex, hadapters, -⟩ := vertex_place h' hbdfids h hext hi
    rw [show phi i = place φ' (source.keyAt (g.numVertices + 1) i) from rfl, hvertex, hadapters]
  · rcases hcases v with ⟨i, hi, rfl⟩ | hsame
    · obtain ⟨f, hvertex, -, htype, -⟩ :=
        vertex_place h' hbdfids h hext (List.getElem?_eq_getElem hi)
      rw [show phi i = place φ' (source.keyAt (g.numVertices + 1) i) from rfl, hvertex]
      exact htype _ hv
    · rw [hsame]
  · rcases hcases v with ⟨i, hi, rfl⟩ | hsame
    · obtain ⟨f, hvertex, -, -, hdescription⟩ :=
        vertex_place h' hbdfids h hext (List.getElem?_eq_getElem hi)
      rw [show phi i = place φ' (source.keyAt (g.numVertices + 1) i) from rfl, hvertex]
      exact hdescription (fun hzero => hv (by rw [hzero])) _ hne
    · rw [hsame]
  · rw [← countP_allKeys h hs]
    exact h.length_eq h'.toNumbers hext (allKeys_nodup hbdfids _) fun k => run_ops_info_isSome

/-- `ModuleHwloc` on a graph where the PCI device has a vertex already. -/
theorem HwlocSource.initGraph_embeds_smallMachine :
    ∃ phi, HwlocEmbedding smallMachine (({} : Graph 2).addVertexId "bdfid:768").2
      (smallMachine.initGraph (({} : Graph 2).addVertexId "bdfid:768").2).2 phi := by
  obtain ⟨φ, vd, g, hg, -, hadv⟩ := (Represents.empty (n := 2)).addVertexId "bdfid:768"
  rw [hg]
  exact HwlocSource.initGraph_embeds smallMachine_distinctBdfids hadv.rep.wellFormed rfl

end Yloc
