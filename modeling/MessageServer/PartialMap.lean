/-
# Partial maps with four operations

A map from keys to values that holds a value under some of the keys.  A value can be stored
under a new key, replaced, looked up and deleted; an operation that does not fit what the map
holds is answered so and changes nothing.

* `MapOp.act`: an operation on what is held under one key;
* `MapOp.run`, `runMap`: an operation, and operations in a row, on a map;
* `runMap_at`: what is held under a key in the end is what the operations at this key make of it.

Nothing here names the server.
-/
import Mathlib.Logic.Function.Basic
import Mathlib.Data.List.Basic

/-- An operation at one key. -/
inductive MapOp (α : Type)
  | create (value : α)
  | modify (value : α)
  | read
  | delete

/-- The answer of an operation. -/
inductive MapAnswer (α : Type)
  | done
  | value (value : α)
  | present
  | absent

/-- The answer of an operation at a key, and what is held under the key afterwards. -/
def MapOp.act {α : Type} : MapOp α → Option α → MapAnswer α × Option α
  | .create value, none => (.done, some value)
  | .create _, some held => (.present, some held)
  | .modify _, none => (.absent, none)
  | .modify value, some _ => (.done, some value)
  | .read, none => (.absent, none)
  | .read, some held => (.value held, some held)
  | .delete, none => (.absent, none)
  | .delete, some _ => (.done, none)

section PartialMap

variable {κ α : Type} [DecidableEq κ]

/-- An operation at key `k` of the map `M`. -/
def MapOp.run (op : MapOp α) (k : κ) (M : κ → Option α) :
    MapAnswer α × (κ → Option α) :=
  ((op.act (M k)).1, Function.update M k (op.act (M k)).2)

/-- The own key. -/
@[simp] theorem MapOp.run_self (op : MapOp α) (k : κ) (M : κ → Option α) :
    (op.run k M).2 k = (op.act (M k)).2 := Function.update_self _ _ _

/-- **The other keys are left alone.** -/
theorem MapOp.run_of_ne (op : MapOp α) {k k' : κ} (M : κ → Option α) (h : k' ≠ k) :
    (op.run k M).2 k' = M k' := Function.update_of_ne h _ _

/-- Operations in a row: the answers, and the map in the end. -/
def runMap : List (κ × MapOp α) → (κ → Option α) →
    List (MapAnswer α) × (κ → Option α)
  | [], M => ([], M)
  | op :: ops, M =>
      let rest := runMap ops (op.2.run op.1 M).2
      ((op.2.run op.1 M).1 :: rest.1, rest.2)

/-- One more operation. -/
theorem runMap_snoc (ops : List (κ × MapOp α)) (op : κ × MapOp α) (M : κ → Option α) :
    runMap (ops ++ [op]) M =
      ((runMap ops M).1 ++ [(op.2.run op.1 (runMap ops M).2).1],
        (op.2.run op.1 (runMap ops M).2).2) := by
  induction ops generalizing M with
  | nil => rfl
  | cons op' ops ih => simp only [List.cons_append, runMap, ih]

/-- **What is held under a key** is what the operations at this key make of it. -/
theorem runMap_at (ops : List (κ × MapOp α)) (k : κ) (M : κ → Option α) :
    (runMap ops M).2 k = (ops.filter fun op => op.1 = k).foldl
      (fun held op => (op.2.act held).2) (M k) := by
  induction ops generalizing M with
  | nil => rfl
  | cons op ops ih =>
      rw [runMap, ih]
      by_cases hk : op.1 = k
      · rw [List.filter_cons_of_pos (by simpa using hk), List.foldl_cons, ← hk, MapOp.run_self]
      · rw [List.filter_cons_of_neg (by simpa using hk), op.2.run_of_ne M (Ne.symm hk)]

end PartialMap
