import Yloc.Identifiers
import Yloc.Lib.Commute

/-!
What the modules build, apart from the numbers of the vertices.

A vertex of the topology is known by a `Key`: its identifier, or a number when
it is unnamed. A module changes the topology by `TopologyOp`s: it puts
something on the vertex of a key, or it adds a pair of edges between two keys.
`Represents φ g T` says that the graph `g` is the topology `T` with the key `k`
at the vertex `φ k` and with every identifier bound to the vertex of its key;
the member functions of `Graph` keep it (`Represents.addVertexId`, `addVertex`,
`modify`, `child`, `peer`), and `exists_represents` gives it for every graph
whose identifiers and edges are in order.

* `Topology.mirrored_run`: a run keeps CHILD and PARENT edges mirrored, and GPU
  interconnects.
* `Topology.child_of_run`: where the CHILD edges of a run come from.
* `Topology.run_arcs_mono`, `Topology.run_info_isSome`: edges and vertices stay.
* `Topology.info_run`: a property of the vertices that every operation keeps.
* `Topology.run_info_of_put`, `Topology.run_arcs_of_child`: what a run leaves when it
  meets every key once and tests no edge.
* `Topology.run_info_iterate`, `Topology.run_arcs_of_childIfNew`: what a run leaves when
  it repeats itself and tests every edge.
-/

namespace Yloc

/-- What a vertex of the topology is known by. -/
inductive Key where
  | name (id : Identifier)
  | unnamed (i : ℕ)
  deriving DecidableEq, Repr

/-- The key of a machine. -/
abbrev machineKey (hostname : String) : Key := .name (machineId hostname)

/-- The key of a component of the system. -/
abbrev systemKey (name : String) : Key := .name (systemId name)

/-- The key of a PCI device. -/
abbrev bdfidKey (bdfid : UInt64) : Key := .name (bdfidId bdfid)

/-- The key of an MPI process. -/
abbrev mpiRankKey (i : ℕ) : Key := .name (mpiRankId i)

/-- The topology graph on keys. -/
abbrev Topology (n : ℕ) := Keyed Key (Vertex n) EdgeType

/-- The changes that modules make. -/
inductive TopologyOp (n : ℕ) where
  /-- The vertex of `k` exists and is changed by `f`. -/
  | put (k : Key) (f : Vertex n → Vertex n)
  /-- A CHILD edge from `a` to `b` and a PARENT edge back. -/
  | child (a b : Key)
  /-- The same, unless there is an edge from `a` to `b` already. -/
  | childIfNew (a b : Key)
  /-- GPU interconnects between `a` and `b`. -/
  | peer (a b : Key)

variable {n : ℕ}

namespace Topology

/-- A CHILD edge from `a` to `b` and a PARENT edge back. -/
def addChild (a b : Key) (T : Topology n) : Topology n :=
  Keyed.connect ⟨b, a, .parent⟩ (Keyed.connect ⟨a, b, .child⟩ T)

/-- GPU interconnects between `a` and `b`. -/
def addPeer (a b : Key) (T : Topology n) : Topology n :=
  Keyed.connect ⟨b, a, .gpuInterconnect⟩ (Keyed.connect ⟨a, b, .gpuInterconnect⟩ T)

/-- There is an edge from `a` to `b`. -/
def hasArc (T : Topology n) (a b : Key) : Bool :=
  T.arcs.any fun e => e.source == a && e.target == b

lemma hasArc_iff {T : Topology n} {a b : Key} :
    T.hasArc a b = true ↔ ∃ e ∈ T.arcs, e.source = a ∧ e.target = b := by
  simp [hasArc]

end Topology

/-- The change an operation makes. -/
def TopologyOp.act : TopologyOp n → Topology n → Topology n
  | put k f, T => Keyed.update k f (Keyed.touch k {} T)
  | child a b, T => T.addChild a b
  | childIfNew a b, T => if T.hasArc a b then T else T.addChild a b
  | peer a b, T => T.addPeer a b

namespace Topology

/-- The operations `ops` on the topology `T`. -/
abbrev run (ops : List (TopologyOp n)) (T : Topology n) : Topology n :=
  runOps TopologyOp.act ops T

@[simp] lemma addChild_info (a b : Key) (T : Topology n) : (T.addChild a b).info = T.info := rfl

@[simp] lemma addPeer_info (a b : Key) (T : Topology n) : (T.addPeer a b).info = T.info := rfl

@[simp] lemma addChild_arcs (a b : Key) (T : Topology n) :
    (T.addChild a b).arcs = T.arcs ++ [⟨a, b, .child⟩, ⟨b, a, .parent⟩] := by
  simp [addChild]

@[simp] lemma addPeer_arcs (a b : Key) (T : Topology n) :
    (T.addPeer a b).arcs = T.arcs ++ [⟨a, b, .gpuInterconnect⟩, ⟨b, a, .gpuInterconnect⟩] := by
  simp [addPeer]

/-- There is a CHILD edge from `a` to `b`. -/
abbrev Child (T : Topology n) (a b : Key) : Prop := Arc.Step .child T.arcs a b

lemma addChild_child {T : Topology n} {a b x y : Key} :
    (T.addChild a b).Child x y ↔ T.Child x y ∨ x = a ∧ y = b := by
  simp [Child, Arc.Step]

lemma addChild_targets {T : Topology n} {a b : Key} :
    Arc.targets .child (T.addChild a b).arcs = Arc.targets .child T.arcs ++ [b] := by
  rw [addChild_arcs, Arc.targets_append]
  rfl

end Topology

/-- Putting nothing on a key makes sure that it is there. -/
@[simp] lemma TopologyOp.put_id (k : Key) (T : Topology n) :
    (put k id).act T = Keyed.touch k {} T := by
  rw [TopologyOp.act, Keyed.update, Option.map_id_fun, id, Function.update_eq_self]

@[simp] lemma TopologyOp.put_arcs (k : Key) (f : Vertex n → Vertex n) (T : Topology n) :
    ((put k f).act T).arcs = T.arcs := rfl

@[simp] lemma TopologyOp.put_info_self (k : Key) (f : Vertex n → Vertex n) (T : Topology n) :
    ((put k f).act T).info k = some (f ((T.info k).getD {})) := by
  simp [TopologyOp.act]

lemma TopologyOp.put_info_of_ne {k k' : Key} (h : k' ≠ k) (f : Vertex n → Vertex n)
    (T : Topology n) : ((put k f).act T).info k' = T.info k' := by
  rw [TopologyOp.act, Keyed.update_info_of_ne h, Keyed.touch_info_of_ne h]

lemma TopologyOp.childIfNew_act (a b : Key) (T : Topology n) :
    (childIfNew a b).act T = if T.hasArc a b then T else T.addChild a b := rfl

@[simp] lemma TopologyOp.childIfNew_info (a b : Key) (T : Topology n) :
    ((childIfNew a b).act T).info = T.info := by
  rw [childIfNew_act]
  split <;> rfl

/-! ### What a run does to the edges -/

section Arcs

variable {T : Topology n}

/-- What one operation adds to the edges. -/
lemma TopologyOp.act_arcs (op : TopologyOp n) (T : Topology n) :
    (op.act T).arcs = T.arcs ∨
    (∃ a b, (op = .child a b ∨ op = .childIfNew a b) ∧
      (op.act T).arcs = T.arcs ++ [⟨a, b, .child⟩, ⟨b, a, .parent⟩]) ∨
    ∃ a b, op = .peer a b ∧ (op.act T).arcs =
      T.arcs ++ [⟨a, b, .gpuInterconnect⟩, ⟨b, a, .gpuInterconnect⟩] := by
  cases op with
  | put k f => exact .inl rfl
  | child a b => exact .inr (.inl ⟨a, b, .inl rfl, Topology.addChild_arcs a b T⟩)
  | childIfNew a b =>
      by_cases h : T.hasArc a b = true
      · left
        rw [TopologyOp.act, if_pos h]
      · right; left
        refine ⟨a, b, .inr rfl, ?_⟩
        rw [TopologyOp.act, if_neg h, Topology.addChild_arcs]
  | peer a b => exact .inr (.inr ⟨a, b, rfl, Topology.addPeer_arcs a b T⟩)

/-- The topology is symmetric: CHILD edges mirror PARENT edges and GPU
interconnects one another. -/
structure Topology.Mirrored (T : Topology n) : Prop where
  child : Arc.Mirrored .child .parent T.arcs
  peer : Arc.Mirrored .gpuInterconnect .gpuInterconnect T.arcs

lemma Topology.Mirrored.empty : Topology.Mirrored (Keyed.empty : Topology n) :=
  ⟨List.Perm.refl _, List.Perm.refl _⟩

/-- One operation keeps a topology symmetric. -/
lemma TopologyOp.mirrored_act (op : TopologyOp n) (h : T.Mirrored) :
    (op.act T).Mirrored := by
  have hchild : ((Arc.ends EdgeType.child T.arcs).map Prod.swap).Perm
    (Arc.ends EdgeType.parent T.arcs) := h.child
  have hpeer : ((Arc.ends EdgeType.gpuInterconnect T.arcs).map Prod.swap).Perm
    (Arc.ends EdgeType.gpuInterconnect T.arcs) := h.peer
  rcases op.act_arcs T with harcs | ⟨a, b, -, harcs⟩ | ⟨a, b, -, harcs⟩
  · constructor
    · rw [harcs]; exact h.child
    · rw [harcs]; exact h.peer
  · constructor
    · rw [Arc.Mirrored, harcs, Arc.ends_append, Arc.ends_append, List.map_append]
      exact hchild.append_right _
    · rw [Arc.Mirrored, harcs, Arc.ends_append, List.map_append]
      exact hpeer.append_right _
  · constructor
    · rw [Arc.Mirrored, harcs, Arc.ends_append, Arc.ends_append, List.map_append]
      exact hchild.append_right _
    · rw [Arc.Mirrored, harcs, Arc.ends_append, List.map_append]
      exact hpeer.append (List.Perm.swap _ _ _)

/-- **Every run keeps a topology symmetric.** -/
theorem Topology.mirrored_run (ops : List (TopologyOp n)) (h : T.Mirrored) :
    (T.run ops).Mirrored := by
  induction ops generalizing T with
  | nil => exact h
  | cons op ops ih => exact ih (op.mirrored_act h)

/-- Edges are never removed. -/
lemma Topology.run_arcs_mono (ops : List (TopologyOp n)) {e : Arc Key EdgeType}
    (he : e ∈ T.arcs) : e ∈ (T.run ops).arcs := by
  induction ops generalizing T with
  | nil => exact he
  | cons op ops ih =>
      refine ih ?_
      rcases op.act_arcs T with harcs | ⟨a, b, -, harcs⟩ | ⟨a, b, -, harcs⟩ <;>
        rw [harcs] <;> simp [he]

/-- A CHILD edge after a run was there before, or an operation of the run adds it. -/
lemma Topology.child_of_run {ops : List (TopologyOp n)} {a b : Key}
    (h : Arc.Step .child (T.run ops).arcs a b) :
    Arc.Step .child T.arcs a b ∨ .child a b ∈ ops ∨ .childIfNew a b ∈ ops := by
  induction ops generalizing T with
  | nil => exact .inl h
  | cons op ops ih =>
      rcases ih h with h | h | h
      · rcases op.act_arcs T with harcs | ⟨c, d, hop, harcs⟩ | ⟨c, d, -, harcs⟩
        · rw [harcs] at h
          exact .inl h
        · rw [Arc.Step, harcs] at h
          simp only [List.mem_append, List.mem_cons, Arc.mk.injEq, reduceCtorEq, and_false,
            List.not_mem_nil, or_false, and_true] at h
          rcases h with h | ⟨rfl, rfl⟩
          · exact .inl h
          · rcases hop with rfl | rfl <;> simp
        · rw [Arc.Step, harcs] at h
          simp only [List.mem_append, List.mem_cons, Arc.mk.injEq, reduceCtorEq, and_false,
            List.not_mem_nil, or_false] at h
          exact .inl h
      · exact .inr (.inl (List.mem_cons_of_mem _ h))
      · exact .inr (.inr (List.mem_cons_of_mem _ h))

/-- An edge that is added with a test is there in the end, or another one in its place. -/
lemma Topology.hasArc_of_childIfNew {ops : List (TopologyOp n)} {a b : Key}
    (h : .childIfNew a b ∈ ops) : (T.run ops).hasArc a b = true := by
  obtain ⟨before, after, rfl⟩ := List.append_of_mem h
  have hround : Topology.hasArc ((TopologyOp.childIfNew a b).act (T.run before)) a b = true := by
    rw [TopologyOp.childIfNew_act]
    split
    · next hold => exact hold
    · refine Topology.hasArc_iff.mpr ⟨⟨a, b, .child⟩, ?_, rfl, rfl⟩
      rw [Topology.addChild_arcs]
      simp
  obtain ⟨e, he, hends⟩ := Topology.hasArc_iff.mp hround
  rw [Topology.run, runOps_append, runOps_cons]
  exact Topology.hasArc_iff.mpr ⟨e, Topology.run_arcs_mono after he, hends⟩

/-- A CHILD edge that is added stays. -/
lemma Topology.child_of_mem {ops : List (TopologyOp n)} {a b : Key}
    (h : .child a b ∈ ops) : (T.run ops).Child a b := by
  obtain ⟨before, after, rfl⟩ := List.append_of_mem h
  rw [Topology.run, runOps_append, runOps_cons]
  refine Topology.run_arcs_mono after ?_
  rw [TopologyOp.act, Topology.addChild_arcs]
  simp

/-- The edges of a run: those from before, pairs of CHILD and PARENT edges, and GPU
interconnects. -/
lemma Topology.label_of_run {ops : List (TopologyOp n)} {e : Arc Key EdgeType}
    (he : e ∈ (T.run ops).arcs) :
    e ∈ T.arcs ∨ e.label = .child ∨ e.label = .parent ∨
      e.label = .gpuInterconnect ∧ ∃ a b, .peer a b ∈ ops ∧ (e.source = a ∨ e.source = b) := by
  induction ops generalizing T with
  | nil => exact .inl he
  | cons op ops ih =>
      rcases ih he with he | he | he | ⟨hlabel, a, b, hop, hends⟩
      · rcases op.act_arcs T with harcs | ⟨a, b, -, harcs⟩ | ⟨a, b, rfl, harcs⟩
        · rw [harcs] at he
          exact .inl he
        · rw [harcs, List.mem_append] at he
          simp only [List.mem_cons, List.not_mem_nil, or_false] at he
          rcases he with he | rfl | rfl
          · exact .inl he
          · exact .inr (.inl rfl)
          · exact .inr (.inr (.inl rfl))
        · rw [harcs, List.mem_append] at he
          simp only [List.mem_cons, List.not_mem_nil, or_false] at he
          rcases he with he | rfl | rfl
          · exact .inl he
          · exact .inr (.inr (.inr ⟨rfl, a, b, List.mem_cons_self, .inl rfl⟩))
          · exact .inr (.inr (.inr ⟨rfl, a, b, List.mem_cons_self, .inr rfl⟩))
      · exact .inr (.inl he)
      · exact .inr (.inr (.inl he))
      · exact .inr (.inr (.inr ⟨hlabel, a, b, List.mem_cons_of_mem _ hop, hends⟩))

/-- The keys that a run puts something on. -/
def TopologyOp.putKey : TopologyOp n → Option Key
  | put k _ => some k
  | _ => none

/-- Only putting something on a key changes what vertices hold. -/
lemma TopologyOp.put_or_info (op : TopologyOp n) (T : Topology n) :
    (∃ k f, op = .put k f) ∨ op.putKey = none ∧ (op.act T).info = T.info := by
  cases op with
  | put k f => exact .inl ⟨k, f, rfl⟩
  | child a b => exact .inr ⟨rfl, rfl⟩
  | childIfNew a b => exact .inr ⟨rfl, TopologyOp.childIfNew_info a b T⟩
  | peer a b => exact .inr ⟨rfl, rfl⟩

/-- The ends of the CHILD edge that an operation adds without a test. -/
def TopologyOp.childArc : TopologyOp n → Option (Key × Key)
  | child a b => some (a, b)
  | _ => none

lemma TopologyOp.mem_childArcs {ops : List (TopologyOp n)} {a b : Key} :
    (a, b) ∈ ops.filterMap TopologyOp.childArc ↔ .child a b ∈ ops := by
  rw [List.mem_filterMap]
  constructor
  · rintro ⟨op, hop, harc⟩
    cases op <;> cases harc
    exact hop
  · exact fun h => ⟨_, h, rfl⟩

/-- **When a run gives no vertex two parents**: the edges added without a test
have different targets, those added with a test have one source for a target,
and no target is one of both. -/
theorem Topology.nodup_targets_run {ops : List (TopologyOp n)}
    (hnew : ((ops.filterMap TopologyOp.childArc).map Prod.snd).Nodup)
    (hguard : ∀ a a' b, .childIfNew a b ∈ ops → .childIfNew a' b ∈ ops → a = a')
    (hdisjoint : ∀ a b, .childIfNew a b ∈ ops →
      b ∉ (ops.filterMap TopologyOp.childArc).map Prod.snd) :
    (Arc.targets .child (Topology.run ops Keyed.empty).arcs).Nodup := by
  induction ops using List.reverseRecOn with
  | nil => exact List.nodup_nil
  | append_singleton ops op ih =>
      rw [List.filterMap_append, List.map_append] at hnew
      have hT := ih hnew.of_append_left
        (fun a a' b h h' => hguard a a' b (List.mem_append_left _ h) (List.mem_append_left _ h'))
        (fun a b h hb => hdisjoint a b (List.mem_append_left _ h) (by
          rw [List.filterMap_append, List.map_append]
          exact List.mem_append_left _ hb))
      -- an earlier edge into `b` comes from an operation of the run
      have hfrom : ∀ {b},
          b ∈ Arc.targets .child (Topology.run ops (Keyed.empty : Topology n)).arcs →
          b ∈ (ops.filterMap TopologyOp.childArc).map Prod.snd ∨ ∃ a, .childIfNew a b ∈ ops ∧
            (Topology.run ops (Keyed.empty : Topology n)).Child a b := by
        intro b hb
        obtain ⟨a, ha⟩ := Arc.mem_targets.mp hb
        rcases Topology.child_of_run ha with h | h | h
        · cases h
        · exact .inl (List.mem_map.mpr ⟨_, TopologyOp.mem_childArcs.mpr h, rfl⟩)
        · exact .inr ⟨a, h, ha⟩
      rw [Topology.run, runOps_append, runOps_cons, runOps_nil]
      cases op with
      | put k f => exact hT
      | child a b =>
          rw [TopologyOp.act, Topology.addChild_targets]
          refine hT.append (List.nodup_singleton b) ?_
          rw [List.disjoint_singleton]
          intro hb
          rcases hfrom hb with h | ⟨a', h, -⟩
          · exact (List.nodup_append.mp hnew).2.2 b h b (by simp [TopologyOp.childArc]) rfl
          · exact hdisjoint a' b (List.mem_append_left _ h) (by simp [TopologyOp.childArc])
      | childIfNew a b =>
          rw [TopologyOp.act]
          split
          · exact hT
          · next hnone =>
              rw [Topology.addChild_targets]
              refine hT.append (List.nodup_singleton b) ?_
              rw [List.disjoint_singleton]
              intro hb
              rcases hfrom hb with h | ⟨a', h, ha'⟩
              · refine hdisjoint a b (by simp) ?_
                rw [List.filterMap_append, List.map_append]
                exact List.mem_append_left _ h
              · obtain rfl := hguard a a' b (by simp) (List.mem_append_left _ h)
                exact hnone (Topology.hasArc_iff.mpr ⟨_, ha', rfl, rfl⟩)
      | peer a b =>
          rw [TopologyOp.act, Topology.addPeer_arcs, Arc.targets_append]
          exact hT.append List.nodup_nil (List.disjoint_nil_right _)

/-- A key has a vertex after a run if it had one before or something was put on it. -/
lemma Topology.run_info_isSome {ops : List (TopologyOp n)} {k : Key} :
    ((T.run ops).info k).isSome ↔ (T.info k).isSome ∨ k ∈ ops.filterMap TopologyOp.putKey := by
  induction ops generalizing T with
  | nil => simp
  | cons op ops ih =>
      rw [show T.run (op :: ops) = (op.act T).run ops from rfl, ih]
      rcases op.put_or_info T with ⟨k', f, rfl⟩ | ⟨hkey, hinfo⟩
      · by_cases hk : k = k'
        · subst hk
          simp [TopologyOp.putKey]
        · rw [TopologyOp.put_info_of_ne hk]
          simp [TopologyOp.putKey, hk]
      · rw [hinfo, List.filterMap_cons, hkey]

/-- A run leaves alone the keys on which it puts nothing. -/
lemma Topology.run_info_of_not_mem {ops : List (TopologyOp n)} {k : Key}
    (h : k ∉ ops.filterMap TopologyOp.putKey) : (T.run ops).info k = T.info k := by
  induction ops generalizing T with
  | nil => rfl
  | cons op ops ih =>
      rw [show T.run (op :: ops) = (op.act T).run ops from rfl]
      rcases op.put_or_info T with ⟨k', f, rfl⟩ | ⟨hkey, hinfo⟩
      · rw [List.filterMap_cons, TopologyOp.putKey, List.mem_cons, not_or] at h
        rw [ih h.2, TopologyOp.put_info_of_ne h.1]
      · rw [List.filterMap_cons, hkey] at h
        rw [ih h, hinfo]

/-- A run that puts something on a key once changes its vertex accordingly. -/
lemma Topology.run_info_of_put {ops : List (TopologyOp n)} {k : Key} {f : Vertex n → Vertex n}
    (hnodup : (ops.filterMap TopologyOp.putKey).Nodup) (hput : .put k f ∈ ops) :
    (T.run ops).info k = some (f ((T.info k).getD {})) := by
  -- nothing before and after puts anything on the key
  obtain ⟨before, after, rfl⟩ := List.append_of_mem hput
  rw [List.filterMap_append, List.filterMap_cons, TopologyOp.putKey, List.nodup_middle,
    List.nodup_cons, List.mem_append, not_or] at hnodup
  obtain ⟨⟨hbefore, hafter⟩, -⟩ := hnodup
  rw [Topology.run, runOps_append, runOps_cons, Topology.run_info_of_not_mem hafter,
    TopologyOp.put_info_self, Topology.run_info_of_not_mem hbefore]

/-- What a run adds to the edges when it tests none of them. -/
lemma Topology.run_arcs_of_child {ops : List (TopologyOp n)}
    (h : ∀ op ∈ ops, (∃ k f, op = .put k f) ∨ ∃ a b, op = .child a b) :
    (T.run ops).arcs = T.arcs ++ (ops.filterMap TopologyOp.childArc).flatMap fun e =>
      [⟨e.1, e.2, .child⟩, ⟨e.2, e.1, .parent⟩] := by
  induction ops generalizing T with
  | nil => simp
  | cons op ops ih =>
      rw [show T.run (op :: ops) = (op.act T).run ops from rfl,
        ih fun op' hop' => h op' (List.mem_cons_of_mem _ hop')]
      rcases h op List.mem_cons_self with ⟨k, f, rfl⟩ | ⟨a, b, rfl⟩
      · rfl
      · simp [TopologyOp.act, TopologyOp.childArc]

/-- A run that puts the same on a key every time changes its vertex as often. -/
lemma Topology.run_info_iterate {ops : List (TopologyOp n)} {k : Key} {f : Vertex n → Vertex n}
    (hsame : ∀ f', .put k f' ∈ ops → f' = f) (hmem : k ∈ ops.filterMap TopologyOp.putKey) :
    (T.run ops).info k =
      some (f^[(ops.filterMap TopologyOp.putKey).count k] ((T.info k).getD {})) := by
  induction ops generalizing T with
  | nil => cases hmem
  | cons op ops ih =>
      rw [show T.run (op :: ops) = (op.act T).run ops from rfl]
      have hrest := ih (T := op.act T) fun f' hf' => hsame f' (List.mem_cons_of_mem _ hf')
      rcases op.put_or_info T with ⟨k', f', rfl⟩ | ⟨hkey, hinfo⟩
      · rw [List.filterMap_cons, TopologyOp.putKey] at hmem ⊢
        by_cases hk : k = k'
        · subst hk
          obtain rfl := hsame f' List.mem_cons_self
          rw [List.count_cons_self, Function.iterate_succ_apply]
          by_cases hlater : k ∈ ops.filterMap TopologyOp.putKey
          · rw [hrest hlater, TopologyOp.put_info_self]
            rfl
          · rw [Topology.run_info_of_not_mem hlater, List.count_eq_zero_of_not_mem hlater,
              TopologyOp.put_info_self]
            rfl
        · rw [hrest (List.mem_of_ne_of_mem hk hmem), TopologyOp.put_info_of_ne hk,
            List.count_cons_of_ne (Ne.symm hk)]
      · rw [List.filterMap_cons, hkey] at hmem ⊢
        rw [hrest hmem, hinfo]

/-- **A property of the vertices that every operation of a run keeps**, and establishes on
the vertices that it makes, holds after the run. -/
theorem Topology.info_run {P : Key → Vertex n → Prop} {ops : List (TopologyOp n)}
    (hput : ∀ k f, .put k f ∈ ops → ∀ x, x = {} ∨ P k x → P k (f x))
    (hT : ∀ k x, T.info k = some x → P k x) : ∀ k x, (T.run ops).info k = some x → P k x := by
  induction ops generalizing T with
  | nil => exact hT
  | cons op ops ih =>
      refine ih (fun k f hf => hput k f (List.mem_cons_of_mem _ hf)) fun k x hx => ?_
      rcases op.put_or_info T with ⟨k', f, rfl⟩ | ⟨-, hinfo⟩
      · by_cases hk : k = k'
        · subst hk
          rw [TopologyOp.put_info_self, Option.some.injEq] at hx
          subst hx
          refine hput k f List.mem_cons_self _ ?_
          cases hinfo : T.info k with
          | none => exact .inl rfl
          | some y => exact .inr (hT k y hinfo)
        · rw [TopologyOp.put_info_of_ne hk] at hx
          exact hT k x hx
      · rw [hinfo] at hx
        exact hT k x hx

/-- The ends of the CHILD edge that an operation adds after a test. -/
def TopologyOp.childIfNewArc : TopologyOp n → Option (Key × Key)
  | childIfNew a b => some (a, b)
  | _ => none

/-- A CHILD edge and the PARENT edge back, for each pair. -/
def childPairs (links : List (Key × Key)) : List (Arc Key EdgeType) :=
  links.flatMap fun e => [⟨e.1, e.2, .child⟩, ⟨e.2, e.1, .parent⟩]

lemma mem_childPairs {links : List (Key × Key)} {e : Arc Key EdgeType} :
    e ∈ childPairs links ↔
      ∃ a b, (a, b) ∈ links ∧ (e = ⟨a, b, .child⟩ ∨ e = ⟨b, a, .parent⟩) := by
  rw [childPairs, List.mem_flatMap]
  constructor
  · rintro ⟨⟨a, b⟩, hab, he⟩
    exact ⟨a, b, hab, by simpa using he⟩
  · rintro ⟨a, b, hab, he⟩
    exact ⟨(a, b), hab, by simpa using he⟩

lemma childPairs_nodup {links : List (Key × Key)} (h : links.Nodup) : (childPairs links).Nodup := by
  refine List.nodup_flatMap.mpr ⟨fun e _ => by simp, h.imp fun {e e'} hne => ?_⟩
  rw [Function.onFun, List.disjoint_left]
  intro x hx hx'
  simp only [List.mem_cons, List.not_mem_nil, or_false] at hx hx'
  rcases hx with rfl | rfl <;> rcases hx' with h | h <;> cases e <;> cases e' <;> simp_all

/-- **What a run with tests adds to the edges** where no edge was before: a pair for each
pair of keys that is named, once however often it is named. -/
theorem Topology.run_arcs_of_childIfNew {ops : List (TopologyOp n)}
    (hops : ∀ op ∈ ops, (∃ k f, op = .put k f) ∨ ∃ a b, op = .childIfNew a b)
    (hnew : ∀ a b, (a, b) ∈ ops.filterMap TopologyOp.childIfNewArc → T.hasArc a b = false)
    (hback : ∀ a b, (a, b) ∈ ops.filterMap TopologyOp.childIfNewArc →
      (b, a) ∉ ops.filterMap TopologyOp.childIfNewArc) :
    ∃ links, links.Nodup ∧ (∀ e, e ∈ links ↔ e ∈ ops.filterMap TopologyOp.childIfNewArc) ∧
      (T.run ops).arcs = T.arcs ++ childPairs links := by
  induction ops using List.reverseRecOn with
  | nil => exact ⟨[], List.nodup_nil, fun e => Iff.rfl, by simp [childPairs]⟩
  | append_singleton ops op ih =>
      rw [List.filterMap_append] at hnew hback ⊢
      obtain ⟨links, hnodup, hmem, harcs⟩ := ih (fun op' h => hops op' (List.mem_append_left _ h))
        (fun a b h => hnew a b (List.mem_append_left _ h))
        (fun a b h hba => hback a b (List.mem_append_left _ h) (List.mem_append_left _ hba))
      rw [Topology.run, runOps_append, runOps_cons, runOps_nil]
      rcases hops op (by simp) with ⟨k, f, rfl⟩ | ⟨a, b, rfl⟩
      · exact ⟨links, hnodup, fun e => by simpa [TopologyOp.childIfNewArc] using hmem e, harcs⟩
      · have hab : (a, b) ∈ ops.filterMap TopologyOp.childIfNewArc ++
            [TopologyOp.childIfNew (n := n) a b].filterMap TopologyOp.childIfNewArc := by
          simp [TopologyOp.childIfNewArc]
        -- the test finds the pair itself, and nothing else
        have htest : (T.run ops).hasArc a b = true ↔ (a, b) ∈ links := by
          rw [Topology.hasArc_iff]
          constructor
          · rintro ⟨e, he, rfl, rfl⟩
            rw [harcs, List.mem_append, mem_childPairs] at he
            rcases he with he | ⟨a', b', hab', rfl | rfl⟩
            · have hold := hnew _ _ hab
              rw [Topology.hasArc_iff.mpr ⟨e, he, rfl, rfl⟩] at hold
              cases hold
            · exact hab'
            · exact absurd (List.mem_append_left _ ((hmem _).mp hab')) (hback _ _ hab)
          · intro hab'
            refine ⟨⟨a, b, .child⟩, ?_, rfl, rfl⟩
            rw [harcs]
            exact List.mem_append_right _ (mem_childPairs.mpr ⟨a, b, hab', .inl rfl⟩)
        rw [TopologyOp.childIfNew_act]
        by_cases hfound : (a, b) ∈ links
        · rw [if_pos (htest.mpr hfound)]
          refine ⟨links, hnodup, fun e => ?_, harcs⟩
          rw [List.mem_append, ← hmem]
          refine ⟨Or.inl, fun h => h.elim id fun he => ?_⟩
          rw [show e = (a, b) by simpa [TopologyOp.childIfNewArc] using he]
          exact hfound
        · rw [if_neg (mt htest.mp hfound)]
          refine ⟨links ++ [(a, b)], List.nodup_append.mpr ⟨hnodup, List.nodup_singleton _, ?_⟩,
            fun e => ?_, ?_⟩
          · intro e he e' he' heq
            rw [heq, List.mem_singleton.mp he'] at he
            exact hfound he
          · rw [List.mem_append, List.mem_append, hmem]
            simp [TopologyOp.childIfNewArc]
          · rw [Topology.addChild_arcs, show (runOps TopologyOp.act ops T).arcs = _ from harcs]
            simp [childPairs]

end Arcs

/-! ### Graphs that represent a topology -/

/-- The graph `g` is the topology `T` with the key `k` at the vertex `φ k`. -/
structure Represents (φ : Key → Option VertexT) (g : Graph n) (T : Topology n) : Prop extends
    Numbers φ g.vertices g.edges T where
  /-- Identifiers are bound to the vertices of their keys. -/
  ids : ∀ id, g.lookup id = φ (.name id)

/-- The graph `g'` comes from `g` without renumbering: it represents `T'`, the
keys placed in `g` stay where they are, and so does the root vertex. -/
structure Advance (φ : Key → Option VertexT) (g : Graph n) (φ' : Key → Option VertexT)
    (g' : Graph n) (T' : Topology n) : Prop where
  rep : Represents φ' g' T'
  keeps : Extends φ φ'
  root : g'.mRootVertex = g.mRootVertex

section Represents

variable {φ φ' φ'' : Key → Option VertexT} {g g' g'' : Graph n} {T T' T'' : Topology n}

lemma Advance.refl (h : Represents φ g T) : Advance φ g φ g T := ⟨h, .refl φ, rfl⟩

lemma Advance.trans (h : Advance φ g φ' g' T') (h' : Advance φ' g' φ'' g'' T'') :
    Advance φ g φ'' g'' T'' :=
  ⟨h'.rep, h.keeps.trans h'.keeps, h'.root.trans h.root⟩

/-- A key that was not placed is placed at a new vertex. -/
lemma Advance.le_of_new (h : Advance φ g φ' g' T') (hrep : Represents φ g T) {k : Key}
    {v : VertexT} (hnew : φ k = none) (hv : φ' k = some v) : g.numVertices ≤ v := by
  by_contra hlt
  obtain ⟨k', hk'⟩ := hrep.surj v (not_le.mp hlt)
  obtain rfl : k' = k := h.rep.inj _ _ _ (h.keeps _ _ hk') hv
  rw [hnew] at hk'
  cases hk'

namespace Represents

/-- The empty graph represents the empty topology. -/
lemma empty : Represents (fun _ => none) ({} : Graph n) Keyed.empty where
  toNumbers := Numbers.empty
  ids := by simp [Graph.lookup]

/-- A key that is present is placed at an existing vertex. -/
lemma exists_place (h : Represents φ g T) {k : Key} (hk : (T.info k).isSome) :
    ∃ v, φ k = some v := by
  obtain ⟨x, hx⟩ := Option.isSome_iff_exists.mp hk
  obtain ⟨v, hv, -⟩ := h.placed hx
  exact ⟨v, hv⟩

/-- The bundle of a placed key. -/
lemma info_vertex (h : Represents φ g T) {k : Key} {v : VertexT} (hk : φ k = some v) :
    T.info k = some (g.vertex v) := by
  obtain ⟨x, hx, hT⟩ := h.info_some hk
  rw [hT, Graph.vertex, hx, Option.getD_some]

/-- What a key had before is the bundle its vertex had before, where there was one. -/
lemma getD_info (h : Represents φ g T) (h' : Represents φ' g' T') (hext : Extends φ φ') {k : Key}
    {v : VertexT} (hk : φ' k = some v) : (T.info k).getD {} = g.vertex v := by
  cases hφ : φ k with
  | some w =>
      obtain rfl : w = v := Option.some.inj ((hext k w hφ).symm.trans hk)
      rw [h.info_vertex hφ, Option.getD_some]
  | none =>
      -- the vertex is a new one
      have hv : g.vertices[v]? = none := by
        rw [List.getElem?_eq_none_iff]
        by_contra hlt
        obtain ⟨k', hk'⟩ := h.surj v (not_le.mp hlt)
        obtain rfl := h'.inj k k' v hk (hext k' v hk')
        rw [hk'] at hφ
        cases hφ
      rw [h.info_eq_none_iff.mpr hφ, Graph.vertex, hv]

/-- A run leaves alone the vertices of other keys than those on which it puts something. -/
theorem vertex_run_of_ne {ops : List (TopologyOp n)} (h : Represents φ g T)
    (h' : Represents φ' g' (T.run ops)) (hext : Extends φ φ') {v : VertexT}
    (hv : ∀ k ∈ ops.filterMap TopologyOp.putKey, φ' k ≠ some v) : g'.vertex v = g.vertex v := by
  by_cases hlt : v < g'.numVertices
  · obtain ⟨k, hk⟩ := h'.surj v hlt
    have hnot : k ∉ ops.filterMap TopologyOp.putKey := fun hmem => hv k hmem hk
    calc g'.vertex v = ((T.run ops).info k).getD {} := by
          rw [h'.info_vertex hk, Option.getD_some]
      _ = (T.info k).getD {} := by rw [Topology.run_info_of_not_mem hnot]
      _ = g.vertex v := h.getD_info h' hext hk
  · have hge := (h.length_le h'.toNumbers hext).trans (not_lt.mp hlt)
    rw [Graph.vertex, Graph.vertex, List.getElem?_eq_none (not_lt.mp hlt),
      List.getElem?_eq_none hge]

/-- `g[vd]` is changed. -/
lemma modify (h : Represents φ g T) {k : Key} {v : VertexT} (hk : φ k = some v)
    (f : Vertex n → Vertex n) : Represents φ (g.modify v f) (Keyed.update k f T) where
  toNumbers := h.toNumbers.update hk f
  ids := h.ids

/-- `add_vertex(id)`. -/
theorem addVertexId (h : Represents φ g T) (id : Identifier) :
    ∃ φ' vd g', g.addVertexId id = (vd, g') ∧ φ' (.name id) = some vd ∧
      Advance φ g φ' g' (Keyed.touch (.name id) {} T) := by
  cases hid : g.lookup id with
  | some vd =>
      have hk : φ (.name id) = some vd := by rw [← h.ids, hid]
      refine ⟨φ, vd, g, Graph.addVertexId_of_some hid, hk, ?_⟩
      rw [Keyed.touch_eq_self {} (h.info_vertex hk)]
      exact .refl h
  | none =>
      have hk : φ (.name id) = none := by rw [← h.ids, hid]
      refine ⟨Function.update φ (.name id) (some g.numVertices), _, _,
        Graph.addVertexId_of_none hid, by simp, ⟨⟨h.toNumbers.new hk {}, fun id' => ?_⟩,
          Extends.update hk _, rfl⟩⟩
      by_cases hne : id' = id
      · subst hne
        rw [Function.update_self]
        exact AList.lookup_insert _
      · rw [Function.update_of_ne (by simpa using hne), ← h.ids]
        exact AList.lookup_insert_ne hne

/-- `add_vertex()`, for a key that no vertex has. -/
theorem addVertex (h : Represents φ g T) {i : ℕ} (hi : T.info (.unnamed i) = none) :
    ∃ φ', φ' (.unnamed i) = some g.addVertex.1 ∧
      Advance φ g φ' g.addVertex.2 (Keyed.touch (.unnamed i) {} T) := by
  have hk : φ (.unnamed i) = none := h.info_eq_none_iff.mp hi
  refine ⟨Function.update φ (.unnamed i) (some g.numVertices), by simp [Graph.addVertex,
    Graph.numVertices], ⟨⟨h.toNumbers.new hk {}, fun id => ?_⟩, Extends.update hk _, rfl⟩⟩
  rw [Function.update_of_ne (by simp)]
  exact h.ids id

variable {a b : Key} {u v : VertexT}

/-- A CHILD edge and the PARENT edge back. -/
theorem child (h : Represents φ g T) (hu : φ a = some u) (hv : φ b = some v) :
    Advance φ g φ ((g.addEdge u v .child).addEdge v u .parent) (T.addChild a b) where
  rep := ⟨(h.toNumbers.connect (a := ⟨a, b, .child⟩) hu hv).connect (a := ⟨b, a, .parent⟩) hv hu,
    h.ids⟩
  keeps := .refl φ
  root := rfl

/-- A pair of GPU interconnects. -/
theorem peer (h : Represents φ g T) (hu : φ a = some u) (hv : φ b = some v) :
    Advance φ g φ ((g.addEdge u v .gpuInterconnect).addEdge v u .gpuInterconnect)
      (T.addPeer a b) where
  rep := ⟨(h.toNumbers.connect (a := ⟨a, b, .gpuInterconnect⟩) hu hv).connect
    (a := ⟨b, a, .gpuInterconnect⟩) hv hu, h.ids⟩
  keeps := .refl φ
  root := rfl

/-- `boost::edge` finds an edge between the vertices when the topology has one
between the keys. -/
theorem hasEdge_eq (h : Represents φ g T) (hu : φ a = some u) (hv : φ b = some v) :
    g.hasEdge u v = T.hasArc a b := by
  rw [Bool.eq_iff_iff, Graph.hasEdge_iff, Topology.hasArc_iff]
  constructor
  · rintro ⟨⟨u', v', l⟩, he, rfl, rfl⟩
    exact ⟨⟨a, b, l⟩, (h.step_iff hu hv).mp he, rfl, rfl⟩
  · rintro ⟨⟨a', b', l⟩, he, rfl, rfl⟩
    exact ⟨⟨u, v, l⟩, (h.step_iff hu hv).mpr he, rfl, rfl⟩

end Represents

end Represents

/-! ### Every graph in order represents a topology -/

/-- The identifiers of a graph name existing, pairwise different vertices, and
its edges join existing vertices. -/
structure Graph.WellFormed (g : Graph n) : Prop where
  bound : ∀ id v, g.lookup id = some v → v < g.numVertices
  inj : ∀ id id' v, g.lookup id = some v → g.lookup id' = some v → id = id'
  ends : ∀ e ∈ g.edges, e.source < g.numVertices ∧ e.target < g.numVertices

lemma Represents.wellFormed {φ : Key → Option VertexT} {g : Graph n} {T : Topology n}
    (h : Represents φ g T) : g.WellFormed where
  bound id v hid := h.lt (.name id) v (by rw [← h.ids, hid])
  inj id id' v hid hid' := by
    have heq := h.inj (.name id) (.name id') v (by rw [← h.ids, hid]) (by rw [← h.ids, hid'])
    simpa using heq
  ends e he := h.step_lt (l := e.label) he

/-- **A graph in order represents a topology**, with its unnamed vertices known by
their numbers. -/
theorem exists_represents {g : Graph n} (hg : g.WellFormed) :
    ∃ φ T, Represents φ g T ∧ ∀ i, g.numVertices ≤ i → T.info (.unnamed i) = none := by
  classical
  let named : VertexT → Prop := fun v => ∃ id, g.lookup id = some v
  let key : VertexT → Key := fun v => if h : named v then .name h.choose else .unnamed v
  let φ : Key → Option VertexT
    | .name id => g.lookup id
    | .unnamed v => if v < g.numVertices ∧ ¬ named v then some v else none
  let T : Topology n := ⟨fun k => (φ k).bind (g.vertices[·]?), g.edges.map (Arc.map key)⟩
  have hunnamed : ∀ i v, φ (.unnamed i) = some v → i = v ∧ v < g.numVertices ∧ ¬ named v := by
    intro i v h
    simp only [φ] at h
    split at h
    · next hi =>
        rw [Option.some.injEq] at h
        subst h
        exact ⟨rfl, hi⟩
    · exact absurd h (by simp)
  have hkey : ∀ v < g.numVertices, φ (key v) = some v := by
    intro v hv
    by_cases h : named v
    · simp only [key, dif_pos h, φ]
      exact h.choose_spec
    · simp only [key, dif_neg h, φ]
      rw [if_pos ⟨hv, h⟩]
  have hplace : ∀ v < g.numVertices, place φ (key v) = v := fun v hv => place_eq (hkey v hv)
  refine ⟨φ, T, ⟨⟨fun k v hk => ?_, fun k k' v hk hk' => ?_, fun v hv => ⟨_, hkey v hv⟩,
    fun _ => rfl, fun a ha => ?_, ?_⟩, fun _ => rfl⟩, fun i hi => ?_⟩
  · cases k with
    | name id => exact hg.bound id v hk
    | unnamed i => exact (hunnamed i v hk).2.1
  · cases k with
    | name id =>
        cases k' with
        | name id' => rw [hg.inj id id' v hk hk']
        | unnamed i' => exact absurd ⟨id, hk⟩ (hunnamed i' v hk').2.2
    | unnamed i =>
        cases k' with
        | name id' => exact absurd ⟨id', hk'⟩ (hunnamed i v hk).2.2
        | unnamed i' => rw [(hunnamed i v hk).1, (hunnamed i' v hk').1]
  · obtain ⟨e, he, rfl⟩ := List.mem_map.mp ha
    exact ⟨⟨_, hkey _ (hg.ends e he).1⟩, _, hkey _ (hg.ends e he).2⟩
  · rw [List.map_map]
    conv_lhs => rw [← List.map_id g.edges]
    refine List.map_congr_left fun e he => ?_
    obtain ⟨u, v, l⟩ := e
    simp [Arc.map, hplace _ (hg.ends _ he).1, hplace _ (hg.ends _ he).2]
  · simp only [T, φ, if_neg (fun h : i < g.numVertices ∧ ¬ named i => by omega), Option.bind_none]

end Yloc
