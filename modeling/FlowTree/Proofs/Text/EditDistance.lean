import FlowTree.Text.EditDistance
import Mathlib.Order.Bounds.Basic
import Mathlib.Order.MinMax

/-!
Edit distance is the least number of edits. The distance of two lists is first given by recursion on their heads; a
script with as many edits is built along this recursion, and a single edit moves the distance by at most one, so no
script is shorter. The rows that are computed hold the distances of the prefixes: lists that are read from their ends
grow by a head for every element that is added, so the recursion is the step from one row to the next.
-/

namespace FlowTree.Text

section
variable {α : Type} {n : Nat} {xs ys zs : List α}

/-- An element is put in, taken out or put in the place of another one. -/
inductive Edit : List α → List α → Prop
  | insert (front back : List α) (a : α) : Edit (front ++ back) (front ++ a :: back)
  | delete (front back : List α) (a : α) : Edit (front ++ a :: back) (front ++ back)
  | substitute (front back : List α) (a b : α) : Edit (front ++ a :: back) (front ++ b :: back)

/-- The given number of edits, one after the other, turns the one list into the other. -/
inductive Edits : Nat → List α → List α → Prop
  | none (xs : List α) : Edits 0 xs xs
  | more {n : Nat} {xs ys zs : List α} (edit : Edit xs ys) (rest : Edits n ys zs) : Edits (n + 1) xs zs

theorem Edit.symm (h : Edit xs ys) : Edit ys xs := by
  cases h with
  | insert front back a => exact .delete front back a
  | delete front back a => exact .insert front back a
  | substitute front back a b => exact .substitute front back b a

theorem Edit.cons (h : Edit xs ys) (a : α) : Edit (a :: xs) (a :: ys) := by
  cases h with
  | insert front back b => exact .insert (a :: front) back b
  | delete front back b => exact .delete (a :: front) back b
  | substitute front back b c => exact .substitute (a :: front) back b c

theorem Edit.reverse (h : Edit xs ys) : Edit xs.reverse ys.reverse := by
  cases h with
  | insert front back a => simpa using Edit.insert back.reverse front.reverse a
  | delete front back a => simpa using Edit.delete back.reverse front.reverse a
  | substitute front back a b => simpa using Edit.substitute back.reverse front.reverse a b

theorem Edits.snoc (h : Edits n xs ys) (edit : Edit ys zs) : Edits (n + 1) xs zs := by
  induction h with
  | none => exact .more edit (.none zs)
  | more first _ ih => exact .more first (ih edit)

theorem Edits.symm (h : Edits n xs ys) : Edits n ys xs := by
  induction h with
  | none xs => exact .none xs
  | more edit _ ih => exact ih.snoc edit.symm

theorem Edits.cons (h : Edits n xs ys) (a : α) : Edits n (a :: xs) (a :: ys) := by
  induction h with
  | none xs => exact .none (a :: xs)
  | more edit _ ih => exact .more (edit.cons a) ih

theorem Edits.reverse (h : Edits n xs ys) : Edits n xs.reverse ys.reverse := by
  induction h with
  | none xs => exact .none xs.reverse
  | more edit _ ih => exact .more edit.reverse ih

theorem Edits.insert (h : Edits n xs ys) (b : α) : Edits (n + 1) xs (b :: ys) :=
  .more (.insert [] xs b) (h.cons b)

theorem Edits.delete (h : Edits n xs ys) (a : α) : Edits (n + 1) (a :: xs) ys :=
  .more (.delete [] xs a) h

theorem edits_length (xs : List α) : Edits xs.length xs [] := by
  induction xs with
  | nil => exact .none []
  | cons x xs ih => exact ih.delete x

theorem Edits.substitute (h : Edits n xs ys) (a b : α) : Edits (n + 1) (a :: xs) (b :: ys) :=
  .more (.substitute [] xs a b) (h.cons b)

end

/-! ### The distance by recursion -/

section
variable {α : Type} [DecidableEq α] {n : Nat} {xs xs' ys : List α}

/-- The least number of edits, found by what becomes of the first elements. -/
def distance : List α → List α → Nat
  | [], ys => ys.length
  | xs, [] => xs.length
  | x :: xs, y :: ys =>
    min (min (distance xs (y :: ys) + 1) (distance (x :: xs) ys + 1)) (distance xs ys + if x = y then 0 else 1)
termination_by xs ys => xs.length + ys.length

@[simp] theorem distance_nil_left (ys : List α) : distance [] ys = ys.length := by simp [distance]

@[simp] theorem distance_nil_right (xs : List α) : distance xs [] = xs.length := by cases xs <;> simp [distance]

theorem distance_cons_cons (x y : α) (xs ys : List α) : distance (x :: xs) (y :: ys) =
    min (min (distance xs (y :: ys) + 1) (distance (x :: xs) ys + 1)) (distance xs ys + if x = y then 0 else 1) := by
  rw [distance]

@[simp] theorem distance_self (xs : List α) : distance xs xs = 0 := by
  induction xs with
  | nil => simp
  | cons x xs ih => simp [distance_cons_cons, ih]

/-- There is a script with as many edits as the distance. -/
theorem edits_distance (xs ys : List α) : Edits (distance xs ys) xs ys := by
  induction xs, ys using distance.induct with
  | case1 ys => exact (distance_nil_left ys).symm ▸ (edits_length ys).symm
  | case2 xs => exact (distance_nil_right xs).symm ▸ edits_length xs
  | case3 x xs y ys up left diagonal =>
    rw [distance_cons_cons]
    rcases min_choice (min (distance xs (y :: ys) + 1) (distance (x :: xs) ys + 1))
      (distance xs ys + if x = y then 0 else 1) with h | h <;> rw [h]
    · rcases min_choice (distance xs (y :: ys) + 1) (distance (x :: xs) ys + 1) with h | h <;> rw [h]
      · exact up.delete x
      · exact left.insert y
    · split
      · subst ‹x = y›
        exact diagonal.cons x
      · exact diagonal.substitute x y

theorem distance_cons_left_le (x : α) (xs ys : List α) : distance (x :: xs) ys ≤ distance xs ys + 1 := by
  cases ys with
  | nil => simp
  | cons y ys => rw [distance_cons_cons]; omega

theorem distance_cons_right_le (y : α) (xs ys : List α) : distance xs (y :: ys) ≤ distance xs ys + 1 := by
  cases xs with
  | nil => simp
  | cons x xs => rw [distance_cons_cons]; omega

/-- What is matched with an element that is taken out can be put in instead. -/
theorem distance_le_cons_left (x : α) (xs ys : List α) : distance xs ys ≤ distance (x :: xs) ys + 1 := by
  induction ys with
  | nil => simp; omega
  | cons y ys ih =>
    have hright := distance_cons_right_le y xs ys
    rw [distance_cons_cons]
    omega

theorem distance_substitute_le (a b : α) (xs ys : List α) : distance (a :: xs) ys ≤ distance (b :: xs) ys + 1 := by
  induction ys with
  | nil => simp
  | cons y ys ih =>
    have hcost : (if a = y then 0 else 1) ≤ 1 := by split <;> omega
    simp only [distance_cons_cons]
    omega

/-- Lists that are near to each other stay near behind the same element. -/
theorem distance_cons_le (a : α) (h : ∀ ys, distance xs ys ≤ distance xs' ys + 1) (ys : List α) :
    distance (a :: xs) ys ≤ distance (a :: xs') ys + 1 := by
  induction ys with
  | nil => simpa using h []
  | cons y ys ih =>
    have hup := h (y :: ys)
    have hdiagonal := h ys
    simp only [distance_cons_cons]
    omega

theorem distance_le_of_edit (h : Edit xs xs') (ys : List α) : distance xs ys ≤ distance xs' ys + 1 := by
  have behind : ∀ {front back back' : List α}, (∀ ys, distance back ys ≤ distance back' ys + 1) →
      ∀ ys, distance (front ++ back) ys ≤ distance (front ++ back') ys + 1 := by
    intro front back back' hback
    induction front with
    | nil => exact hback
    | cons a front ih => exact distance_cons_le a ih
  cases h with
  | insert front back a => exact behind (distance_le_cons_left a back) ys
  | delete front back a => exact behind (distance_cons_left_le a back) ys
  | substitute front back a b => exact behind (distance_substitute_le a b back) ys

theorem distance_le_of_edits (h : Edits n xs ys) : distance xs ys ≤ n := by
  induction h with
  | none xs => simp
  | more edit _ ih => exact (distance_le_of_edit edit _).trans (Nat.succ_le_succ ih)

/-! ### Rows -/

/-- The distances of `xs` from lists that begin with the reverse of `seen`: one element of `ys` after the other is added
to it. -/
def distancesFrom (xs seen : List α) : List α → List Nat
  | [] => []
  | y :: ys => distance xs (y :: seen) :: distancesFrom xs (y :: seen) ys

/-- The row of the elements that `xs` has in reverse. -/
def row (xs ys : List α) : List Nat := distance xs [] :: distancesFrom xs [] ys

theorem distancesFrom_nil (seen ys : List α) : distancesFrom [] seen ys = List.range' (seen.length + 1) ys.length := by
  induction ys generalizing seen with
  | nil => rfl
  | cons y ys ih => simp [distancesFrom, ih, List.range'_succ]

theorem row_nil (ys : List α) : row [] ys = List.range (ys.length + 1) := by
  simp [row, distancesFrom_nil, List.range_eq_range', List.range'_succ]

/-- An entry is found from its neighbours as the distance is from the distances of shorter lists. -/
theorem costsAfter_eq (x : α) (xs seen ys : List α) :
    costsAfter x (distance (x :: xs) seen) (distance xs seen) (distancesFrom xs seen ys) ys =
      distancesFrom (x :: xs) seen ys := by
  induction ys generalizing seen with
  | nil => rfl
  | cons y ys ih =>
    simp only [distancesFrom, costsAfter, beq_iff_eq, ← distance_cons_cons]
    exact congrArg _ (ih (y :: seen))

theorem nextCosts_row (x : α) (xs ys : List α) : nextCosts ys (row xs ys) x = row (x :: xs) ys := by
  have hfirst : distance xs [] + 1 = distance (x :: xs) [] := by simp
  simp only [row, nextCosts, hfirst, costsAfter_eq]

/-- The rows are those of longer and longer prefixes. -/
theorem foldl_nextCosts (xs front ys : List α) : xs.foldl (nextCosts ys) (row front ys) = row (xs.reverse ++ front) ys := by
  induction xs generalizing front with
  | nil => rfl
  | cons x xs ih => simp [nextCosts_row, ih]

theorem getLastD_distancesFrom (xs seen ys : List α) :
    (distancesFrom xs seen ys).getLastD (distance xs seen) = distance xs (ys.reverse ++ seen) := by
  induction ys generalizing seen with
  | nil => rfl
  | cons y ys ih => rw [distancesFrom, List.getLastD_cons, ih, List.reverse_cons, List.append_assoc, List.singleton_append]

theorem editDistance_eq (xs ys : List α) : editDistance xs ys = distance xs.reverse ys.reverse := by
  rw [editDistance, ← row_nil, foldl_nextCosts, row, List.getLastD_cons, getLastD_distancesFrom]
  simp

omit [DecidableEq α] in
theorem edits_reverse_iff : Edits n xs.reverse ys.reverse ↔ Edits n xs ys :=
  ⟨fun h => by simpa using h.reverse, Edits.reverse⟩

theorem isLeast_editDistance (xs ys : List α) : IsLeast {n | Edits n xs ys} (editDistance xs ys) := by
  rw [editDistance_eq]
  refine ⟨edits_reverse_iff.mp (edits_distance _ _), fun n h => ?_⟩
  exact distance_le_of_edits (edits_reverse_iff.mpr h)

/-! ### Near names -/

/-- At most the given number of edits turns the one list into the other. -/
def Within (limit : Nat) (xs ys : List α) : Prop := ∃ n ≤ limit, Edits n xs ys

theorem within_iff {limit : Nat} : Within limit xs ys ↔ editDistance ys xs ≤ limit := by
  have hleast := isLeast_editDistance ys xs
  constructor
  · rintro ⟨n, hn, h⟩
    exact (hleast.2 h.symm).trans hn
  · exact fun h => ⟨_, h, hleast.1.symm⟩

instance (limit : Nat) (xs ys : List α) : Decidable (Within limit xs ys) := decidable_of_iff _ within_iff.symm

end

theorem isSimilar_iff {target candidate : List UInt8} :
    isSimilar target candidate = true ↔ 2 < candidate.length ∧ Within 2 candidate target := by
  simp [isSimilar, within_iff, and_comm]

/-- The distance of byte strings is the least number of edits, and the names that are offered for another one are the
candidates of more than two bytes that at most two edits turn into it, in their order. -/
theorem similarNames_by_edits :
    (∀ a b : List UInt8, IsLeast {n | Edits n a b} (editDistance a b)) ∧
      (∀ (target : List UInt8) (candidates : List (List UInt8)), candidates.filter (isSimilar target) =
        candidates.filter fun candidate => 2 < candidate.length ∧ Within 2 candidate target) ∧
      ∀ (name : String) (candidates : List String), similarNames name candidates =
        candidates.filter fun candidate =>
          2 < candidate.toUTF8.toList.length ∧ Within 2 candidate.toUTF8.toList name.toUTF8.toList := by
  have hsame : ∀ target candidate : List UInt8, isSimilar target candidate =
      decide (2 < candidate.length ∧ Within 2 candidate target) := fun target candidate => by
    rw [Bool.eq_iff_iff, isSimilar_iff, decide_eq_true_iff]
  refine ⟨isLeast_editDistance, fun target candidates => ?_, fun name candidates => ?_⟩
  · exact List.filter_congr fun candidate _ => hsame target candidate
  · exact List.filter_congr fun candidate _ => hsame name.toUTF8.toList candidate.toUTF8.toList

/-- Two substitutions and an insertion. -/
example : editDistance "kitten".toList "sitting".toList = 3 := by decide

end FlowTree.Text
