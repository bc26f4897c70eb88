import Mathlib.Tactic
import Yloc.Graph

/-!
The identifiers under which the modules share vertices.

Each kind of vertex has its own prefix. An identifier determines what it was
built from (`machineId_inj`, `systemId_inj`, `bdfidId_inj`, `mpiRankId_inj`),
and identifiers of different kinds differ.
-/

namespace Yloc

/-- `"machine:" + hostname`. -/
def machineId (hostname : String) : Identifier := "machine:" ++ hostname

/-- `"system:" + name`. -/
def systemId (name : String) : Identifier := "system:" ++ name

/-- `"bdfid:" + std::to_string(bdfid)`. -/
def bdfidId (bdfid : UInt64) : Identifier := "bdfid:" ++ toString bdfid

/-- `"mpi_rank:" + std::to_string(i)`. -/
def mpiRankId (i : ℕ) : Identifier := "mpi_rank:" ++ toString i

/-- Decimal notation is read back by its value. -/
lemma natToString_injective : Function.Injective (toString : ℕ → String) := by
  intro a b h
  have hvalue : ∀ k : ℕ, Nat.ofDigitChars 10 (toString k).toList 0 = k := fun k => by
    rw [show toString k = Nat.repr k from rfl, Nat.toList_repr, Nat.ofDigitChars_ten_toDigits]
  rw [← hvalue a, h, hvalue b]

@[simp] lemma machineId_inj {a b : String} : machineId a = machineId b ↔ a = b := by
  rw [machineId, machineId, String.append_right_inj]

@[simp] lemma systemId_inj {a b : String} : systemId a = systemId b ↔ a = b := by
  rw [systemId, systemId, String.append_right_inj]

@[simp] lemma bdfidId_inj {a b : UInt64} : bdfidId a = bdfidId b ↔ a = b := by
  rw [bdfidId, bdfidId, String.append_right_inj, ← UInt64.toNat_inj]
  exact natToString_injective.eq_iff

@[simp] lemma mpiRankId_inj {a b : ℕ} : mpiRankId a = mpiRankId b ↔ a = b := by
  rw [mpiRankId, mpiRankId, String.append_right_inj]
  exact natToString_injective.eq_iff

/-- Strings that begin with different characters differ. -/
lemma append_ne_append {a b c d : String} (h : a.toList.head? ≠ b.toList.head?)
    (ha : a ≠ "") (hb : b ≠ "") : a ++ c ≠ b ++ d := by
  intro heq
  have hlist : a.toList ++ c.toList = b.toList ++ d.toList := by
    rw [← String.toList_append, ← String.toList_append, heq]
  have hhead := congrArg List.head? hlist
  rw [List.head?_append_of_ne_nil _ (by simpa using ha),
    List.head?_append_of_ne_nil _ (by simpa using hb)] at hhead
  exact h hhead

@[simp] lemma machineId_ne_systemId (a b : String) : machineId a ≠ systemId b :=
  append_ne_append (by decide) (by decide) (by decide)

@[simp] lemma machineId_ne_bdfidId (a : String) (b : UInt64) : machineId a ≠ bdfidId b :=
  append_ne_append (by decide) (by decide) (by decide)

@[simp] lemma systemId_ne_bdfidId (a : String) (b : UInt64) : systemId a ≠ bdfidId b :=
  append_ne_append (by decide) (by decide) (by decide)

@[simp] lemma mpiRankId_ne_systemId (i : ℕ) (a : String) : mpiRankId i ≠ systemId a :=
  append_ne_append (by decide) (by decide) (by decide)

@[simp] lemma mpiRankId_ne_bdfidId (i : ℕ) (b : UInt64) : mpiRankId i ≠ bdfidId b :=
  append_ne_append (by decide) (by decide) (by decide)

/-- Both begin with an `m`; they part at the second character. -/
@[simp] lemma machineId_ne_mpiRankId (a : String) (i : ℕ) : machineId a ≠ mpiRankId i := by
  intro heq
  have hsecond := congrArg (fun s : String => s.toList[1]?) heq
  simp [machineId, mpiRankId] at hsecond

end Yloc
