import Mathlib.Data.List.Basic

/-!
Buffers of a fixed number of cells that are filled in a circle. The head is the
cell to be written next and the fill count saturates, so that together they say
which end of the log of all writes the cells still hold. Rewinding both forgets
the log and leaves the cells as they are.
-/

namespace Ring

variable {α : Type}

/-- The last `depth` entries of a log. -/
def recent (depth : Nat) (log : List α) : List α := log.drop (log.length - depth)

theorem length_recent (depth : Nat) (log : List α) :
    (recent depth log).length = min log.length depth := by
  rw [recent, List.length_drop]
  omega

/-- What the cells, the head and the fill count say about the log. -/
structure Holds (depth : Nat) (log cells : List α) (head filled : Nat) : Prop where
  length : cells.length = depth
  head : head = log.length % depth
  filled : filled = min log.length depth
  cell : ∀ i, log.length ≤ i + depth → i < log.length → cells[i % depth]? = log[i]?

namespace Holds
variable {depth : Nat} {log cells : List α} {head filled : Nat}

theorem head_lt (h : Holds depth log cells head filled) (hdepth : 0 < depth) : head < depth := by
  rw [h.head]
  exact Nat.mod_lt _ hdepth

theorem empty (h : cells.length = depth) : Holds depth [] cells 0 0 where
  length := h
  head := (Nat.zero_mod depth).symm
  filled := (Nat.zero_min depth).symm
  cell i _ hi := absurd hi (Nat.not_lt_zero i)

/-- Rewinding the indices. -/
theorem reset (h : Holds depth log cells head filled) : Holds depth [] cells 0 0 :=
  empty h.length

/-- Less than a circle apart, two entries are not in one cell. -/
theorem mod_ne {i n : Nat} (hlt : i < n) (hnear : n < i + depth) : i % depth ≠ n % depth := by
  intro heq
  have hdvd : depth ∣ n - i := Nat.dvd_of_mod_eq_zero (Nat.sub_mod_eq_zero_of_mod_eq heq.symm)
  have hle := Nat.le_of_dvd (by omega) hdvd
  omega

theorem push (h : Holds depth log cells head filled) (hdepth : 0 < depth) (a : α) :
    Holds depth (log ++ [a]) (cells.set head a) ((head + 1) % depth)
      (if filled < depth then filled + 1 else filled) where
  length := by rw [List.length_set, h.length]
  head := by rw [h.head, List.length_append, List.length_singleton, Nat.mod_add_mod]
  filled := by
    rw [h.filled, List.length_append, List.length_singleton]
    split <;> omega
  cell := by
    intro i hnear hi
    rw [List.length_append, List.length_singleton] at hnear hi
    obtain hold | rfl : i < log.length ∨ i = log.length := by omega
    · have hne : head ≠ i % depth := by
        rw [h.head]
        exact (mod_ne hold (by omega)).symm
      rw [List.getElem?_set_ne hne, List.getElem?_append_left hold]
      exact h.cell i (by omega) hold
    · have hhead : log.length % depth < cells.length := by
        rw [h.length]
        exact Nat.mod_lt _ hdepth
      rw [h.head, List.getElem?_set_self hhead, List.getElem?_append_right (Nat.le_refl _),
        Nat.sub_self]
      rfl

/-- The cells from the oldest entry on: behind the head once the circle is full,
from the first cell on before that. -/
theorem read (h : Holds depth log cells head filled) (d : α) :
    ((List.range filled).map fun i =>
        cells.getD (((if filled < depth then 0 else head) + i) % depth) d) =
      recent depth log := by
  have hfilled := h.filled
  refine List.ext_getElem ?_ fun i hi hi' => ?_
  · rw [List.length_map, List.length_range, length_recent, hfilled]
  · rw [List.length_map, List.length_range] at hi
    have hcell := h.cell (log.length - depth + i) (by omega) (by omega)
    have hindex : ((if filled < depth then 0 else head) + i) % depth =
        (log.length - depth + i) % depth := by
      split
      · congr 1
        omega
      · have hwrap : log.length + i = log.length - depth + i + depth := by omega
        rw [h.head, Nat.mod_add_mod, hwrap, Nat.add_mod_right]
    rw [List.getElem_map, List.getElem_range, hindex, List.getD_eq_getElem?_getD, hcell]
    simp only [recent, List.getElem_drop]
    rw [List.getElem?_eq_getElem (by omega), Option.getD_some]

end Holds

end Ring
