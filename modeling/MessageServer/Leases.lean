/-
# Leases

What a process has open: numbers, each held for somebody.  A number that has been given back may be
given out again, to anybody.

* `Leases ι`: a table in which no number is given out twice;
* `Leases.add`, `Leases.remove`: a free number is given out, a number is given back;
* `Leases.count`: how many numbers are held for somebody.

Nothing here names the server.
-/
import Mathlib.Data.List.Nodup
import Mathlib.Data.List.Count

/-- The numbers that are given out, each with whom it is held for. -/
structure Leases (ι : Type) where
  held : List (ℕ × ι)
  nodup : (held.map Prod.fst).Nodup

namespace Leases

variable {ι : Type} {h : Leases ι} {n m : ℕ} {i j : ι}

/-- Nothing is given out. -/
def none : Leases ι := ⟨[], List.nodup_nil⟩

/-- The number is not given out. -/
def Free (h : Leases ι) (n : ℕ) : Prop := ∀ i, (n, i) ∉ h.held

instance (h : Leases ι) (n : ℕ) : Decidable (h.Free n) :=
  decidable_of_iff (∀ d ∈ h.held, d.1 ≠ n)
    ⟨fun hall _ hmem => hall _ hmem rfl, fun hfree d hd heq => hfree d.2 (heq ▸ hd)⟩

/-- The number is held for `i`. -/
def Owns (h : Leases ι) (i : ι) (n : ℕ) : Prop := (n, i) ∈ h.held

/-- A free number is given out. -/
def add (h : Leases ι) (i : ι) (n : ℕ) (hfree : h.Free n) : Leases ι where
  held := (n, i) :: h.held
  nodup := by
    refine List.nodup_cons.mpr ⟨fun hmem => ?_, h.nodup⟩
    obtain ⟨⟨m, j⟩, hj, rfl⟩ := List.mem_map.mp hmem
    exact hfree j hj

/-- A number is given back, whosoever it was held for. -/
def remove (h : Leases ι) (n : ℕ) : Leases ι where
  held := h.held.filter fun d => d.1 ≠ n
  nodup := (List.filter_sublist.map Prod.fst).nodup h.nodup

/-- How many numbers are held for `i`. -/
def count [DecidableEq ι] (h : Leases ι) (i : ι) : ℕ := h.held.countP fun d => d.2 = i

@[simp] theorem not_owns_none : ¬ (none : Leases ι).Owns i n := List.not_mem_nil

/-- Who owns what after one more lease. -/
@[simp] theorem owns_add {hfree : h.Free n} : (h.add i n hfree).Owns j m ↔ (m = n ∧ j = i) ∨
    h.Owns j m := by
  rw [Owns, add, List.mem_cons, Prod.mk.injEq]
  rfl

/-- Who owns what after a removal. -/
@[simp] theorem owns_remove : (h.remove n).Owns j m ↔ h.Owns j m ∧ m ≠ n := by
  rw [Owns, remove, List.mem_filter, decide_eq_true_eq]
  rfl

theorem owns_added (hfree : h.Free n) : (h.add i n hfree).Owns i n :=
  owns_add.mpr (Or.inl ⟨rfl, rfl⟩)

theorem Owns.add (howns : h.Owns j m) (hfree : h.Free n) : (h.add i n hfree).Owns j m :=
  owns_add.mpr (Or.inr howns)

theorem Owns.not_free (howns : h.Owns i n) : ¬ h.Free n := fun hfree => hfree i howns

/-- A number is held for one only. -/
theorem Owns.unique (hi : h.Owns i n) (hj : h.Owns j n) : i = j :=
  congrArg Prod.snd (List.inj_on_of_nodup_map h.nodup hi hj rfl)

section Counting

variable [DecidableEq ι]

@[simp] theorem count_none : (none : Leases ι).count i = 0 := rfl

theorem count_add_self {hfree : h.Free n} : (h.add i n hfree).count i = h.count i + 1 :=
  List.countP_cons_of_pos (by simp)

theorem count_add_of_ne {hfree : h.Free n} (hne : i ≠ j) :
    (h.add i n hfree).count j = h.count j :=
  List.countP_cons_of_neg (by simpa using hne)

/-- What is left of a list of numbers when one of them is taken out. -/
theorem countP_filter_ne {l : List (ℕ × ι)} (hnodup : (l.map Prod.fst).Nodup)
    (hmem : (n, i) ∈ l) :
    (l.filter fun d => d.1 ≠ n).countP (fun d => d.2 = j) + (if i = j then 1 else 0) =
      l.countP fun d => d.2 = j := by
  induction l with
  | nil => exact absurd hmem List.not_mem_nil
  | cons d l ih =>
      rw [List.map_cons, List.nodup_cons] at hnodup
      rcases List.mem_cons.mp hmem with rfl | hrest
      · have hkeep : l.filter (fun d => d.1 ≠ n) = l := by
          refine List.filter_eq_self.mpr fun d hd => ?_
          have hne : d.1 ≠ n := fun heq => hnodup.1 (List.mem_map.mpr ⟨d, hd, heq⟩)
          simpa using hne
        rw [List.filter_cons_of_neg (by simp), hkeep, List.countP_cons]
        simp
      · have hne : d.1 ≠ n := fun heq => hnodup.1 (List.mem_map.mpr ⟨_, hrest, heq.symm⟩)
        have hind := ih hnodup.2 hrest
        rw [List.filter_cons_of_pos (by simpa using hne), List.countP_cons, List.countP_cons]
        omega

theorem count_remove_self (howns : h.Owns i n) : (h.remove n).count i + 1 = h.count i := by
  have hcount := countP_filter_ne (j := i) h.nodup howns
  rw [if_pos rfl] at hcount
  exact hcount

theorem count_remove_of_ne (howns : h.Owns i n) (hne : i ≠ j) :
    (h.remove n).count j = h.count j := by
  have hcount := countP_filter_ne (j := j) h.nodup howns
  rw [if_neg hne] at hcount
  exact hcount

end Counting

end Leases
