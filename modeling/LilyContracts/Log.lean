import Mathlib.Data.List.Nodup

/-!
# Numbered append-only logs with an index

A log is a list of entries in creation order. Each entry has a number and is
filed under a key; `index` is the list of the numbers filed under one key. The
lemmas say how the two operations of such a log act on the index: appending an
entry appends its number to its own key's index only (`index_concat`), and
replacing an entry by one with the same number and key changes no index
(`index_set`). Entries, numbers and keys are arbitrary.
-/

namespace LilyContracts.Log

variable {ρ ι κ : Type} [DecidableEq κ] {num : ρ → ι} {key : ρ → κ} {l : List ρ} {p : κ}

/-- The numbers of the entries filed under `p`, in log order. -/
def index (num : ρ → ι) (key : ρ → κ) (l : List ρ) (p : κ) : List ι :=
  (l.filter fun r => key r = p).map num

theorem index_concat (r : ρ) :
    index num key (l ++ [r]) p =
      if key r = p then index num key l p ++ [num r] else index num key l p := by
  unfold index
  by_cases h : key r = p
  · rw [if_pos h, List.filter_append, List.filter_cons_of_pos (by simpa using h), List.map_append]
    rfl
  · rw [if_neg h, List.filter_append, List.filter_cons_of_neg (by simpa using h),
      List.filter_nil, List.append_nil]

theorem mem_index {n : ι} : n ∈ index num key l p ↔ ∃ r ∈ l, key r = p ∧ num r = n := by
  simp [index, and_assoc]

/-- Replacing an entry by one with its number and key leaves every index as it
was. -/
theorem index_set {r r' : ρ} {j : Nat} (hj : l[j]? = some r) (hkey : key r' = key r)
    (hnum : num r' = num r) : index num key (l.set j r') p = index num key l p := by
  induction l generalizing j with
  | nil => cases hj
  | cons x xs ih =>
    cases j with
    | zero =>
      obtain rfl : x = r := by simpa using hj
      simp only [List.set_cons_zero, index, List.filter_cons, hkey]
      split
      next => rw [List.map_cons, List.map_cons, hnum]
      next => rfl
    | succ j =>
      have hxs := ih (by simpa using hj)
      simp only [index, List.set_cons_succ, List.filter_cons] at hxs ⊢
      split
      next => rw [List.map_cons, List.map_cons, hxs]
      next => exact hxs

/-- An index is sorted by whatever sorts the numbers of the whole log. -/
theorem index_pairwise {R : ι → ι → Prop} (h : l.Pairwise fun r r' => R (num r) (num r')) :
    (index num key l p).Pairwise R :=
  List.pairwise_map.mpr (h.sublist List.filter_sublist)

/-- Where no number occurs twice, an entry is in the index of its own key once
and in no other. -/
theorem count_index [DecidableEq ι] {r : ρ} (h : (l.map num).Nodup) (hr : r ∈ l) :
    (index num key l p).count (num r) = if key r = p then 1 else 0 := by
  have hnodup : (index num key l p).Nodup :=
    h.sublist (List.filter_sublist.map num)
  have hmem : num r ∈ index num key l p ↔ key r = p := by
    rw [mem_index]
    constructor
    · intro hr'
      obtain ⟨r', hr', hkey, hnum⟩ := hr'
      rw [← List.inj_on_of_nodup_map h hr' hr hnum]
      exact hkey
    · intro hkey
      exact ⟨r, hr, hkey, rfl⟩
  rw [hnodup.count]
  simp only [hmem]

/-- Entry `j` has number `j + 1`. -/
def Numbered (num : ρ → Nat) (l : List ρ) : Prop :=
  ∀ j r, l[j]? = some r → num r = j + 1

section Numbered

variable {num : ρ → Nat}

theorem numbered_nil : Numbered num ([] : List ρ) := by
  intro j r h
  cases h

theorem numbered_concat {r : ρ} (h : Numbered num l) (hr : num r = l.length + 1) :
    Numbered num (l ++ [r]) := by
  intro j r' hj
  rcases Nat.lt_trichotomy j l.length with hlt | rfl | hgt
  · exact h j r' (by rwa [List.getElem?_append_left hlt] at hj)
  · obtain rfl : r = r' := by simpa using hj
    exact hr
  · rw [List.getElem?_eq_none (by simp; omega)] at hj
    cases hj

theorem numbered_set {r r' : ρ} {j : Nat} (h : Numbered num l) (hj : l[j]? = some r)
    (hnum : num r' = num r) : Numbered num (l.set j r') := by
  intro i x hi
  by_cases hij : j = i
  · subst hij
    have hlt : j < l.length := (List.getElem?_eq_some_iff.mp hj).1
    rw [List.getElem?_set_self hlt] at hi
    obtain rfl : r' = x := by simpa using hi
    rw [hnum]
    exact h j r hj
  · rw [List.getElem?_set_ne hij] at hi
    exact h i x hi

/-- What is appended to a numbered log carries the next numbers, in order and
without a gap. -/
theorem Numbered.map_append {l l' : List ρ} (h : Numbered num (l ++ l')) :
    l'.map num = List.range' (l.length + 1) l'.length := by
  refine List.ext_getElem (by simp) fun j hj _ => ?_
  rw [List.length_map] at hj
  have hnum : num l'[j] = l.length + j + 1 := by
    refine h (l.length + j) l'[j] ?_
    rw [List.getElem?_append_right (Nat.le_add_right ..), Nat.add_sub_cancel_left]
    exact List.getElem?_eq_getElem hj
  rw [List.getElem_map, List.getElem_range', hnum]
  omega

/-- A numbered log is sorted by number. -/
theorem Numbered.pairwise (h : Numbered num l) : l.Pairwise fun r r' => num r < num r' := by
  rw [List.pairwise_iff_getElem]
  intro i j hi hj hij
  have h1 := h i l[i] (List.getElem?_eq_getElem hi)
  have h2 := h j l[j] (List.getElem?_eq_getElem hj)
  omega

end Numbered

end LilyContracts.Log
