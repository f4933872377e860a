/-!
# Splitting at separators

`pieces` cuts a list at every element that a test marks as a separator. It is
the one cutting rule of this library: words of a line, segments of a name,
lines of a file and components of a path are all pieces of some list.
-/

namespace ClassAccess.Text

variable {α : Type}

/-- Puts one element in front of the first piece, or opens a new piece at a
separator. -/
def extendPieces (separator : α → Bool) (a : α) : List (List α) → List (List α)
  | [] => if separator a then [[], []] else [[a]]
  | piece :: later => if separator a then [] :: piece :: later else (a :: piece) :: later

/-- The maximal separator-free pieces, empty ones included: one more than there
are separators. -/
def pieces (separator : α → Bool) (input : List α) : List (List α) :=
  input.foldr (extendPieces separator) [[]]

@[simp] theorem pieces_nil (separator : α → Bool) : pieces separator [] = [[]] := rfl

theorem pieces_cons (separator : α → Bool) (a : α) (rest : List α) :
    pieces separator (a :: rest) = extendPieces separator a (pieces separator rest) := rfl

/-- There is always at least one piece. -/
theorem pieces_ne_nil (separator : α → Bool) (input : List α) :
    pieces separator input ≠ [] := by
  cases input with
  | nil => simp
  | cons a rest =>
      rw [pieces_cons]
      cases pieces separator rest <;> simp only [extendPieces] <;> split <;> simp

/-- A list without separators is its own only piece. -/
theorem pieces_eq_singleton {separator : α → Bool} {input : List α}
    (clean : ∀ a ∈ input, separator a = false) : pieces separator input = [input] := by
  induction input with
  | nil => rfl
  | cons a rest ih =>
      have tail := ih fun b member => clean b (List.mem_cons_of_mem a member)
      simp [pieces_cons, tail, extendPieces, clean a List.mem_cons_self]

end ClassAccess.Text
