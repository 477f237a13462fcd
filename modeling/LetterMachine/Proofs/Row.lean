import LetterMachine.Operator
import Mathlib.Algebra.BigOperators.Fin
import Mathlib.Algebra.BigOperators.Intervals
import Mathlib.Data.Finset.Lattice.Fold

/-!
# Rows read place by place

Operators are written as operations on whole rows.  Here their results are read at one place: a
turned row, a row changed quartet by quartet, the sum and the greatest number of a row.
-/

open Finset

namespace LetterMachine

/-- The greatest of the numbers `f 0`, ..., `f n`. -/
def greatestTo (n : Nat) (f : Nat → Int) : Int :=
  (range (n + 1)).sup' nonempty_range_add_one f

/-- A number that bounds all of `f 0`, ..., `f n` and is one of them is the greatest. -/
theorem eq_greatestTo {n : Nat} {f : Nat → Int} {m : Int} (hle : ∀ i ≤ n, f i ≤ m)
    (hmem : ∃ i ≤ n, f i = m) : m = greatestTo n f := by
  unfold greatestTo
  apply le_antisymm
  · obtain ⟨i, hi, rfl⟩ := hmem
    exact le_sup' f (mem_range.mpr (Nat.lt_succ_of_le hi))
  · apply sup'_le
    intro i hi
    exact hle i (Nat.lt_succ_iff.mp (mem_range.mp hi))

/-- A fold with `max` bounds its start and every number of the list, and is one of them. -/
theorem foldl_max_spec (xs : List Int) (a : Int) :
    a ≤ xs.foldl max a ∧ (∀ x ∈ xs, x ≤ xs.foldl max a) ∧
      (xs.foldl max a = a ∨ xs.foldl max a ∈ xs) := by
  induction xs generalizing a with
  | nil => simp
  | cons b xs ih =>
    obtain ⟨hstart, hall, hmem⟩ := ih (max a b)
    rw [List.foldl_cons]
    refine ⟨le_trans (le_max_left a b) hstart, ?_, ?_⟩
    · intro x hx
      rcases List.mem_cons.mp hx with rfl | hx
      · exact le_trans (le_max_right a x) hstart
      · exact hall x hx
    · rcases hmem with h | h
      · rcases max_choice a b with hab | hab
        · exact Or.inl (by rw [h, hab])
        · exact Or.inr (by rw [h, hab]; exact List.mem_cons_self)
      · exact Or.inr (List.mem_cons_of_mem b h)

theorem sum_eq_sum_range {n : Nat} (v : Vector Int n) (f : Nat → Int)
    (h : ∀ i (hi : i < n), v[i] = f i) : Row.sum v = ∑ i ∈ range n, f i := by
  have hv : v.toList = List.ofFn fun i : Fin n => f i := by
    apply List.ext_getElem
    · simp
    · intro i hi _
      have hin : i < n := by simpa using hi
      simp [h i hin]
  unfold Row.sum
  rw [← Vector.foldr_toList, hv, ← List.sum_eq_foldr, List.sum_ofFn, ← Fin.sum_univ_eq_sum_range]

/-- A fold with `max` over a vector of numbers that bound the start, one of which is the start or
above it. -/
theorem foldl_max_eq_greatestTo {n : Nat} (v : Vector Int (n + 1)) (a : Int) (f : Nat → Int)
    (h : ∀ i (hi : i < n + 1), v[i] = f i) (ha : ∃ i ≤ n, a ≤ f i) :
    v.foldl max a = greatestTo n f := by
  rw [← Vector.foldl_toList]
  obtain ⟨-, hall, hmem⟩ := foldl_max_spec v.toList a
  have hmem' : ∀ i (hi : i ≤ n), f i ∈ v.toList := by
    intro i hi
    rw [← h i (Nat.lt_succ_of_le hi)]
    simp
  -- the fold bounds every entry, and it is one of them or the start, which one of them reaches
  apply eq_greatestTo
  · intro i hi
    exact hall _ (hmem' i hi)
  · rcases hmem with hstart | hin
    · obtain ⟨i, hi, hai⟩ := ha
      refine ⟨i, hi, le_antisymm (hall _ (hmem' i hi)) ?_⟩
      rw [hstart]
      exact hai
    · obtain ⟨i, hi, hget⟩ := List.getElem_of_mem hin
      have hin' : i < n + 1 := by simpa using hi
      refine ⟨i, Nat.lt_succ_iff.mp hin', ?_⟩
      rw [← hget, ← h i hin', Vector.getElem_toList]

namespace Row

theorem greatest_eq_greatestTo (v : Half) (f : Nat → Int)
    (h : ∀ i (hi : i < 11), v[i] = f i) : greatest v = greatestTo 10 f := by
  unfold greatest
  exact foldl_max_eq_greatestTo v v[0] f h ⟨0, by decide, by rw [← h 0 (by decide)]⟩

@[simp] theorem getElem_balance (r : Row) (i : Nat) (h : i < 22) :
    r.balance[i] = balanced r[i] := by
  unfold balance
  rw [Vector.getElem_map]

theorem getElem_turn_of_eq {r : Row} {old : Nat → Int} (hr : ∀ i (hi : i < 22), r[i] = old i)
    (k : Int) (i : Nat) (h : i < 22) : (r.turn k)[i] = old ((i + k) % 22).toNat := by
  rw [getElem_turn]
  exact hr _ (by omega)

/-- The place `j` further on in the quartet of a place, around the quartet. -/
def inQuartet (n j : Nat) : Nat := 4 * (n / 4) + (n + j) % 4

theorem getElem?_mapQuartets (f : Int → Int → Int → Int → Vector Int 4) {xs : List Int}
    {old : Nat → Int} (hxs : ∀ i (hi : i < xs.length), xs[i] = old i) (n : Nat)
    (hn : 4 * (n / 4) + 4 ≤ xs.length) :
    (mapQuartets f xs)[n]? =
      (f (old (4 * (n / 4))) (old (4 * (n / 4) + 1)) (old (4 * (n / 4) + 2))
        (old (4 * (n / 4) + 3)))[n % 4]? := by
  -- quartet by quartet, with the contents free
  fun_induction mapQuartets f xs generalizing old n with
  | case1 a b c d rest ih =>
    simp only [List.length_cons] at hn hxs
    by_cases hfirst : n < 4
    · have ha : a = old 0 := hxs 0 (by omega)
      have hb : b = old 1 := hxs 1 (by omega)
      have hc : c = old 2 := hxs 2 (by omega)
      have hd : d = old 3 := hxs 3 (by omega)
      have hq : n / 4 = 0 := by omega
      have hj : n % 4 = n := by omega
      rw [List.getElem?_append_left (by simp [hfirst]), hq, hj, ha, hb, hc, hd]
      simp
    · -- the rest is read four places on, so its contents are told by a shifted function
      obtain ⟨m, rfl⟩ : ∃ m, n = m + 4 := ⟨n - 4, by omega⟩
      have hq : (m + 4) / 4 = m / 4 + 1 := by omega
      have hj : (m + 4) % 4 = m % 4 := by omega
      have hrest : ∀ i (hi : i < rest.length), rest[i] = old (i + 4) := by
        intro i hi
        exact hxs (i + 4) (by omega)
      rw [List.getElem?_append_right (by simp), Vector.length_toList, Nat.add_sub_cancel,
        ih hrest m (by omega), hq, hj]
      rfl
  | case2 xs hshort =>
    -- a list that is no quartet and a rest is too short to hold a quartet
    rcases xs with _ | ⟨a, _ | ⟨b, _ | ⟨c, _ | ⟨d, rest⟩⟩⟩⟩
    · simp at hn
    · simp at hn
    · simp at hn
    · simp at hn
    · exact absurd rfl (hshort a b c d rest)

theorem getElem?_mapQuartets_of_le (f : Int → Int → Int → Int → Vector Int 4) (xs : List Int)
    (n : Nat) (h : 4 * (xs.length / 4) ≤ n) : (mapQuartets f xs)[n]? = xs[n]? := by
  fun_induction mapQuartets f xs generalizing n with
  | case1 a b c d rest ih =>
    simp only [List.length_cons] at h
    obtain ⟨m, rfl⟩ : ∃ m, n = m + 4 := ⟨n - 4, by omega⟩
    rw [List.getElem?_append_right (by simp), Vector.length_toList, Nat.add_sub_cancel,
      ih m (by omega)]
    rfl
  | case2 => rfl

theorem getElem?_overQuartets (f : Int → Int → Int → Int → Vector Int 4) (r : Row) (n : Nat) :
    (r.overQuartets f)[n]? = (mapQuartets f r.toList)[n]? := by
  simp [overQuartets, ← Vector.getElem?_toArray]

theorem getElem_overQuartets (f : Int → Int → Int → Int → Vector Int 4) {r : Row}
    {old : Nat → Int} (hr : ∀ i (hi : i < 22), r[i] = old i) {n : Nat} (h : n < 20) :
    (r.overQuartets f)[n] =
      (f (old (4 * (n / 4))) (old (4 * (n / 4) + 1)) (old (4 * (n / 4) + 2))
        (old (4 * (n / 4) + 3)))[n % 4] := by
  have hlist : ∀ i (hi : i < r.toList.length), r.toList[i] = old i := by
    intro i hi
    rw [Vector.getElem_toList]
    exact hr i (by simpa using hi)
  apply Option.some_injective
  rw [← Vector.getElem?_eq_getElem (by omega), getElem?_overQuartets,
    getElem?_mapQuartets f hlist n (by simp; omega)]
  exact Vector.getElem?_eq_getElem (by omega)

/-- The last two letters stand in no quartet. -/
theorem getElem_overQuartets_of_le (f : Int → Int → Int → Int → Vector Int 4) (r : Row) {n : Nat}
    (hle : 20 ≤ n) (h : n < 22) : (r.overQuartets f)[n] = r[n] := by
  apply Option.some_injective
  rw [← Vector.getElem?_eq_getElem h, getElem?_overQuartets,
    getElem?_mapQuartets_of_le f r.toList n (by simp; omega)]
  simp

end Row

end LetterMachine
