import Mathlib.Algebra.BigOperators.Group.List.Basic
import Mathlib.Algebra.Ring.Nat
import OpenCodifier.Lib.Result
set_option autoImplicit false

universe u v

/-- What becomes of a result that does not fit: an error, or its remainder. -/
inductive Overflow where
  | checked
  | wrapping
  deriving DecidableEq

namespace Overflow

variable {α : Type u} {ε : Type v} {build : Overflow} {size : Nat} {fault : ε}

def word (size : Nat) (fault : ε) : Overflow → Nat → Except ε Nat
  | checked, n => if n < size then .ok n else .error fault
  | wrapping, n => .ok (n % size)

theorem word_ok {n m : Nat} :
    build.word size fault n = .ok m ↔ (build = checked → n < size) ∧ m = n % size := by
  cases build with
  | wrapping => simp [word, eq_comm]
  | checked =>
    by_cases h : n < size
    · simp [word, h, Nat.mod_eq_of_lt h, eq_comm]
    · simp [word, h]

/-- Additions one after another, in a loop that has its own conditions: checked ones succeed when the
total fits. -/
theorem foldlM_add_ok {body : Nat → α → Except ε Nat} {amount : α → Nat} {P : α → Prop}
    {l : List α} (h : ∀ a ∈ l, ∀ n < size, ∀ m,
      body n a = .ok m ↔ P a ∧ build.word size fault (n + amount a) = .ok m) {n : Nat}
    (hn : n < size) (m : Nat) : l.foldlM body n = .ok m ↔ (∀ a ∈ l, P a) ∧
      (build = checked → n + (l.map amount).sum < size) ∧ m = (n + (l.map amount).sum) % size := by
  induction l generalizing n with
  | nil => simp [pure, Except.pure, Nat.mod_eq_of_lt hn, hn, eq_comm]
  | cons a l ih =>
    have hrest (k : Nat) := ih (fun a' ha' => h a' (List.mem_cons_of_mem a ha'))
      (Nat.mod_lt k (Nat.zero_lt_of_lt hn))
    have hmod := Nat.mod_add_mod (n + amount a) size (l.map amount).sum
    rw [List.foldlM_cons, Result.bind_ok, List.map_cons, List.sum_cons, List.forall_mem_cons,
      ← Nat.add_assoc]
    constructor
    · rintro ⟨k, hbody, hfold⟩
      obtain ⟨hP, hword⟩ := (h a List.mem_cons_self n hn k).mp hbody
      obtain ⟨hfits, rfl⟩ := word_ok.mp hword
      obtain ⟨hall, htotal, rfl⟩ := (hrest _).mp hfold
      refine ⟨⟨hP, hall⟩, fun hbuild => ?_, hmod⟩
      have hsum := htotal hbuild
      rwa [Nat.mod_eq_of_lt (hfits hbuild)] at hsum
    · rintro ⟨⟨hP, hall⟩, htotal, rfl⟩
      have hfits : build = checked → n + amount a < size := fun hbuild => by
        have hsum := htotal hbuild
        omega
      refine ⟨_, (h a List.mem_cons_self n hn _).mpr ⟨hP, word_ok.mpr ⟨hfits, rfl⟩⟩,
        (hrest _).mpr ⟨hall, fun hbuild => ?_, hmod.symm⟩⟩
      rw [Nat.mod_eq_of_lt (hfits hbuild)]
      exact htotal hbuild

end Overflow
