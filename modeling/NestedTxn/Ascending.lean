/-!
# Ascending lists

A finite set over a linear order is kept as a strictly ascending list, so that a set has one
representation and its elements come out in order.

* `Ascending.insert`: adds an element at its place and keeps the list if it is already there.
* `Ascending.mem_insert`: the result holds the new element and the old ones.
* `Ascending.pairwise_insert`: the result is strictly ascending if the list was.
* `Ascending.ofList`: the elements of any list, each once and in order.
-/

namespace NestedTxn

namespace Ascending

variable {α : Type} [LT α] [DecidableLT α] [DecidableEq α]

/-- Add `a` to an ascending list. -/
def insert (a : α) : List α → List α
  | [] => [a]
  | b :: l => if a = b then b :: l else if a < b then a :: b :: l else b :: insert a l

/-- The elements of a list, each once and in ascending order. -/
def ofList (l : List α) : List α :=
  l.foldr insert []

@[simp] theorem mem_insert {a x : α} {l : List α} : x ∈ insert a l ↔ x = a ∨ x ∈ l := by
  induction l with
  | nil => simp [insert]
  | cons b l ih =>
    by_cases hb : a = b
    · subst hb
      simp [insert]
    · by_cases hlt : a < b
      · simp [insert, hb, hlt]
      · simp only [insert, hb, hlt, if_false, List.mem_cons, ih]
        grind

@[simp] theorem mem_ofList {x : α} {l : List α} : x ∈ ofList l ↔ x ∈ l := by
  induction l with
  | nil => simp [ofList]
  | cons b l ih => simp [ofList] at ih ⊢; rw [ih]

section Order

variable [Trans (α := α) (· < ·) (· < ·) (· < ·)] [Std.Trichotomous (α := α) (· < ·)]

theorem pairwise_insert {a : α} {l : List α} (h : l.Pairwise (· < ·)) :
    (insert a l).Pairwise (· < ·) := by
  induction l with
  | nil => simp [insert]
  | cons b l ih =>
    obtain ⟨hb, hl⟩ := List.pairwise_cons.1 h
    by_cases hab : a = b
    · simpa [insert, hab] using h
    · by_cases hlt : a < b
      · simp only [insert, hab, hlt, if_false, if_true]
        refine List.pairwise_cons.2 ⟨fun x hx => ?_, h⟩
        rcases List.mem_cons.1 hx with rfl | hx
        · exact hlt
        · exact Trans.trans hlt (hb x hx)
      · simp only [insert, hab, hlt, if_false]
        refine List.pairwise_cons.2 ⟨fun x hx => ?_, ih hl⟩
        rcases mem_insert.1 hx with rfl | hx
        · rcases Std.lt_trichotomy x b with h | h | h
          · exact absurd h hlt
          · exact absurd h hab
          · exact h
        · exact hb x hx

theorem pairwise_ofList (l : List α) : (ofList l).Pairwise (· < ·) := by
  induction l with
  | nil => exact .nil
  | cons b l ih => exact pairwise_insert ih

end Order

end Ascending

end NestedTxn
