/-
Lists whose elements are told apart by a key.

`put key l x` writes `x` in the place of the first element with its key, or
behind all others. After any sequence of puts an element is found by its key as
it was last put (`find_put_all`), the keys are distinct if they were before
(`put_all_nodup`), and they stand in the order in which they first came
(`put_all_ordered`). The same sequence once more changes nothing
(`put_all_again`), since the keys and what is found by them determine the list
(`ext_of_find`).
-/
import Mathlib.Data.List.Induction
import Mathlib.Data.List.Nodup
import Mathlib.Tactic.Common

set_option autoImplicit false

namespace RxNetCap.Keyed

variable {α κ : Type} [DecidableEq κ] (key : α → κ)

/-- Replace the first element with the key of `x`, or append `x`. -/
def put : List α → α → List α
  | [], x => [x]
  | y :: l, x => if key y = key x then x :: l else y :: put l x

def put_all (l xs : List α) : List α := xs.foldl (put key) l

variable {key}

/-! ## One element -/

theorem keys_put (l : List α) (x : α) :
    (put key l x).map key = if key x ∈ l.map key then l.map key else l.map key ++ [key x] := by
  induction l with
  | nil => rfl
  | cons y l ih =>
    rw [put]
    by_cases hy : key y = key x
    · rw [if_pos hy, if_pos (by simp [hy]), List.map_cons, List.map_cons, hy]
    · have hmem : key x ∈ (y :: l).map key ↔ key x ∈ l.map key := by
        rw [List.map_cons, List.mem_cons, or_iff_right (Ne.symm hy)]
      simp only [if_neg hy, List.map_cons, ih]
      rw [List.map_cons] at hmem
      by_cases hx : key x ∈ l.map key
      · rw [if_pos hx, if_pos (hmem.mpr hx)]
      · rw [if_neg hx, if_neg (mt hmem.mp hx), List.cons_append]

theorem find_put (l : List α) (x : α) (k : κ) :
    (put key l x).find? (key · = k) = if key x = k then some x else l.find? (key · = k) := by
  induction l with
  | nil =>
    by_cases hx : key x = k
    · rw [if_pos hx, put, List.find?_cons_of_pos (by simpa using hx)]
    · rw [if_neg hx, put, List.find?_cons_of_neg (by simpa using hx)]
  | cons y l ih =>
    rw [put]
    by_cases hy : key y = key x
    · rw [if_pos hy]
      by_cases hx : key x = k
      · rw [if_pos hx, List.find?_cons_of_pos (by simpa using hx)]
      · rw [if_neg hx, List.find?_cons_of_neg (by simpa using hx),
          List.find?_cons_of_neg (by simpa [hy] using hx)]
    · rw [if_neg hy]
      by_cases hyk : key y = k
      · rw [List.find?_cons_of_pos (by simpa using hyk), List.find?_cons_of_pos (by simpa using hyk),
          if_neg (fun hx => hy (hyk.trans hx.symm))]
      · rw [List.find?_cons_of_neg (by simpa using hyk), List.find?_cons_of_neg (by simpa using hyk), ih]

theorem put_nodup {l : List α} (h : (l.map key).Nodup) (x : α) : ((put key l x).map key).Nodup := by
  rw [keys_put]
  split
  · exact h
  · next hnew => exact List.nodup_append.mpr ⟨h, List.nodup_singleton _, by simpa using hnew⟩

/-! ## A sequence -/

theorem put_all_nil (l : List α) : put_all key l [] = l := rfl

theorem put_all_append (l xs ys : List α) : put_all key l (xs ++ ys) = put_all key (put_all key l xs) ys :=
  List.foldl_append

theorem put_all_concat (l xs : List α) (x : α) :
    put_all key l (xs ++ [x]) = put key (put_all key l xs) x := by
  rw [put_all_append]
  rfl

/-- An element is found as it was last put. -/
theorem find_put_all (l xs : List α) (k : κ) : (put_all key l xs).find? (key · = k)
    = (xs.reverse.find? (key · = k)).or (l.find? (key · = k)) := by
  induction xs using List.reverseRecOn with
  | nil => rfl
  | append_singleton xs x ih =>
    rw [put_all_concat, find_put, ih, List.reverse_append, List.reverse_singleton, List.singleton_append]
    by_cases hx : key x = k
    · rw [if_pos hx, List.find?_cons_of_pos (by simpa using hx)]
      rfl
    · rw [if_neg hx, List.find?_cons_of_neg (by simpa using hx)]

theorem put_all_nodup {l : List α} (h : (l.map key).Nodup) (xs : List α) :
    ((put_all key l xs).map key).Nodup := by
  induction xs using List.reverseRecOn with
  | nil => exact h
  | append_singleton xs x ih =>
    rw [put_all_concat]
    exact put_nodup ih x

theorem mem_keys_put_all {l xs : List α} {k : κ} :
    k ∈ (put_all key l xs).map key ↔ k ∈ l.map key ∨ k ∈ xs.map key := by
  induction xs using List.reverseRecOn with
  | nil => simp [put_all_nil]
  | append_singleton xs x ih =>
    rw [put_all_concat, keys_put, List.map_append, List.mem_append, ← or_assoc, ← ih]
    split
    · next hold =>
      refine ⟨.inl, fun h => h.elim id fun hx => ?_⟩
      rw [List.map_singleton, List.mem_singleton] at hx
      exact hx ▸ hold
    · rw [List.mem_append, List.map_singleton]

/-- Keys that are there keep their places. -/
theorem keys_put_all_of_mem {l xs : List α} (h : ∀ k ∈ xs.map key, k ∈ l.map key) :
    (put_all key l xs).map key = l.map key := by
  induction xs using List.reverseRecOn with
  | nil => rfl
  | append_singleton xs x ih =>
    rw [List.map_append, List.forall_mem_append] at h
    rw [put_all_concat, keys_put, ih h.1, if_pos (h.2 (key x) (by simp))]

/-- The keys stand in the order in which they first came. -/
theorem put_all_ordered [BEq κ] [LawfulBEq κ] (xs : List α) : ((put_all key [] xs).map key).Pairwise
    fun k k' => (xs.map key).idxOf k < (xs.map key).idxOf k' := by
  induction xs using List.reverseRecOn with
  | nil => exact .nil
  | append_singleton xs x ih =>
    have hmem (k : κ) : k ∈ (put_all key [] xs).map key ↔ k ∈ xs.map key := by
      rw [mem_keys_put_all]
      simp
    have hidx {k : κ} (hk : k ∈ (put_all key [] xs).map key) :
        ((xs ++ [x]).map key).idxOf k = (xs.map key).idxOf k := by
      rw [List.map_append, List.idxOf_append_of_mem ((hmem k).mp hk)]
    have hold := ih.imp_of_mem fun {k k'} hk hk' h => by
      rw [← hidx hk, ← hidx hk'] at h
      exact h
    rw [put_all_concat, keys_put]
    split
    · exact hold
    · next hnew =>
      -- a new key comes behind all that came before
      refine List.pairwise_append.mpr ⟨hold, List.pairwise_singleton _ _, fun k hk k' hk' => ?_⟩
      rw [List.mem_singleton.mp hk', hidx hk, List.map_append,
        List.idxOf_append_of_notMem (mt (hmem _).mpr hnew)]
      exact Nat.lt_of_lt_of_le (List.idxOf_lt_length_of_mem ((hmem k).mp hk)) (Nat.le_add_right _ _)

/-! ## Once more -/

/-- The keys and what is found by them determine a list with distinct keys. -/
theorem ext_of_find {l l' : List α} (hkeys : l.map key = l'.map key) (hnodup : (l.map key).Nodup)
    (hfind : ∀ k, l.find? (key · = k) = l'.find? (key · = k)) : l = l' := by
  induction l generalizing l' with
  | nil =>
    rw [List.map_nil, eq_comm, List.map_eq_nil_iff] at hkeys
    exact hkeys.symm
  | cons x l ih =>
    cases l' with
    | nil => cases hkeys
    | cons x' l' =>
      obtain ⟨hhead, htail⟩ := List.cons.inj hkeys
      obtain ⟨hfresh, hrest⟩ := List.nodup_cons.mp hnodup
      have hx := hfind (key x)
      rw [List.find?_cons_of_pos (by simp), List.find?_cons_of_pos (by simp [hhead])] at hx
      cases Option.some.inj hx
      rw [ih htail hrest fun k => ?_]
      by_cases hk : key x = k
      · -- neither rest has the key of the head
        have hnone {m : List α} (hm : m.map key = l.map key) : m.find? (key · = k) = none := by
          rw [List.find?_eq_none]
          intro y hy hyk
          have hmem := List.mem_map_of_mem (f := key) hy
          rw [hm, of_decide_eq_true hyk, ← hk] at hmem
          exact hfresh hmem
        rw [hnone rfl, hnone htail.symm]
      · have h := hfind k
        rwa [List.find?_cons_of_neg (by simpa using hk), List.find?_cons_of_neg (by simpa using hk)] at h

/-- Putting the same elements once more changes nothing. -/
theorem put_all_again {l : List α} (h : (l.map key).Nodup) (xs : List α) :
    put_all key (put_all key l xs) xs = put_all key l xs := by
  have hkeys : (put_all key (put_all key l xs) xs).map key = (put_all key l xs).map key :=
    keys_put_all_of_mem fun k hk => mem_keys_put_all.mpr (.inr hk)
  refine ext_of_find hkeys (hkeys ▸ put_all_nodup h xs) fun k => ?_
  rw [find_put_all, find_put_all]
  cases xs.reverse.find? (key · = k) <;> rfl

end RxNetCap.Keyed
