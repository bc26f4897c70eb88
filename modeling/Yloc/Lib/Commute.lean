import Mathlib.Tactic
import Mathlib.Data.List.Perm.Basic

/-!
Operations that commute up to an equivalence.

A state is changed by a list of operations (`runOps`). If the operations respect
an equivalence `E` of states, then blocks of them whose members commute up to `E`
may be run in any order: `runOps_append_comm` exchanges two blocks and
`runOps_flatten_perm` permutes any number of them.
-/

variable {O S : Type}

/-- The operations run in order. -/
def runOps (act : O → S → S) (ops : List O) (s : S) : S :=
  ops.foldl (fun s o => act o s) s

section

variable (act : O → S → S)

@[simp] lemma runOps_nil (s : S) : runOps act [] s = s := rfl

@[simp] lemma runOps_cons (o : O) (ops : List O) (s : S) :
    runOps act (o :: ops) s = runOps act ops (act o s) := rfl

@[simp] lemma runOps_append (ops ops' : List O) (s : S) :
    runOps act (ops ++ ops') s = runOps act ops' (runOps act ops s) := by
  rw [runOps, List.foldl_append]
  rfl

end

/-- The operation `o` takes equivalent states to equivalent states. -/
def Respects (E : S → S → Prop) (act : O → S → S) (o : O) : Prop :=
  ∀ s s', E s s' → E (act o s) (act o s')

/-- The operations `a` and `b` may be exchanged, up to `E`. -/
def CommuteUpTo (E : S → S → Prop) (act : O → S → S) (a b : O) : Prop :=
  ∀ s, E (act a (act b s)) (act b (act a s))

section

variable {E : S → S → Prop} {act : O → S → S}

lemma CommuteUpTo.symm (hE : Equivalence E) {a b : O} (h : CommuteUpTo E act a b) :
    CommuteUpTo E act b a := fun s => hE.symm (h s)

/-- A list of respectful operations is respectful. -/
lemma runOps_respects {ops : List O} (hresp : ∀ o ∈ ops, Respects E act o) {s s' : S}
    (h : E s s') : E (runOps act ops s) (runOps act ops s') := by
  induction ops generalizing s s' with
  | nil => exact h
  | cons o ops ih =>
      exact ih (fun o' ho' => hresp o' (List.mem_cons_of_mem _ ho'))
        (hresp o (by simp) s s' h)

/-- An operation that commutes with each member of a list commutes with the
list. -/
lemma runOps_comm_single (hE : Equivalence E) {a : O} {ops : List O}
    (hresp : ∀ o ∈ ops, Respects E act o) (hcomm : ∀ b ∈ ops, CommuteUpTo E act b a) (s : S) :
    E (runOps act ops (act a s)) (act a (runOps act ops s)) := by
  induction ops generalizing s with
  | nil => exact hE.refl _
  | cons b ops ih =>
      have hrest : ∀ o ∈ ops, Respects E act o := fun o ho =>
        hresp o (List.mem_cons_of_mem _ ho)
      have hba : E (act b (act a s)) (act a (act b s)) := hcomm b (by simp) s
      exact hE.trans (runOps_respects hrest hba)
        (ih hrest (fun b' hb' => hcomm b' (List.mem_cons_of_mem _ hb')) (act b s))

/-- **Two blocks of commuting operations may be exchanged.** -/
theorem runOps_append_comm (hE : Equivalence E) {as bs : List O}
    (has : ∀ o ∈ as, Respects E act o) (hbs : ∀ o ∈ bs, Respects E act o)
    (hcomm : ∀ a ∈ as, ∀ b ∈ bs, CommuteUpTo E act a b) (s : S) :
    E (runOps act (as ++ bs) s) (runOps act (bs ++ as) s) := by
  induction as generalizing s with
  | nil => rw [List.nil_append, List.append_nil]; exact hE.refl _
  | cons a as ih =>
      have hrest : ∀ o ∈ as, Respects E act o := fun o ho => has o (List.mem_cons_of_mem _ ho)
      have htail := ih hrest (fun a' ha' => hcomm a' (List.mem_cons_of_mem _ ha')) (act a s)
      have hhead : E (runOps act bs (act a s)) (act a (runOps act bs s)) :=
        runOps_comm_single hE hbs (fun b hb => (hcomm a (by simp) b hb).symm hE) s
      rw [runOps_append, runOps_append] at htail
      rw [List.cons_append, runOps_cons, runOps_append, runOps_append, runOps_cons]
      exact hE.trans htail (runOps_respects hrest hhead)

/-- **Blocks of commuting operations may be run in any order.** -/
theorem runOps_flatten_perm (hE : Equivalence E) {bs cs : List (List O)} (hperm : bs.Perm cs)
    (hresp : ∀ ops ∈ bs, ∀ o ∈ ops, Respects E act o)
    (hcomm : bs.Pairwise fun as bs => ∀ a ∈ as, ∀ b ∈ bs, CommuteUpTo E act a b) (s : S) :
    E (runOps act bs.flatten s) (runOps act cs.flatten s) := by
  induction hperm generalizing s with
  | nil => exact hE.refl _
  | cons b _ ih =>
      rw [List.flatten_cons, List.flatten_cons, runOps_append, runOps_append]
      exact ih (fun ops hops => hresp ops (List.mem_cons_of_mem _ hops))
        (List.pairwise_cons.mp hcomm).2 _
  | swap a b l =>
      simp only [List.flatten_cons, ← List.append_assoc, runOps_append _ (_ ++ _)]
      refine runOps_respects (fun o ho => ?_) (runOps_append_comm hE (hresp b (by simp))
        (hresp a (by simp)) (fun x hx y hy => ?_) s)
      · obtain ⟨ops, hops, ho⟩ := List.mem_flatten.mp ho
        exact hresp ops (by simp [hops]) o ho
      · exact (List.pairwise_cons.mp hcomm).1 a (by simp) x hx y hy
  | trans hp _ ih₁ ih₂ =>
      have hsymm : ∀ {as bs : List O}, (∀ a ∈ as, ∀ b ∈ bs, CommuteUpTo E act a b) →
          ∀ b ∈ bs, ∀ a ∈ as, CommuteUpTo E act b a :=
        fun h b hb a ha => (h a ha b hb).symm hE
      exact hE.trans (ih₁ hresp hcomm s)
        (ih₂ (fun ops hops => hresp ops (hp.mem_iff.mpr hops)) (hp.pairwise hcomm hsymm) s)

end
