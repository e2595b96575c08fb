/-!
# Sets of texts

A set of texts is kept as its list in the order of code points.
-/

namespace HourlyPrices

/-- A finite set of texts, in strictly increasing order. -/
structure TextSet where
  items : List String
  ordered : items.Pairwise (· < ·)
  deriving DecidableEq

namespace TextSet

/-- The set without texts. -/
def empty : TextSet := ⟨[], .nil⟩

instance : Inhabited TextSet := ⟨empty⟩

/-- Whether there is no text. -/
def isEmpty (s : TextSet) : Bool := s.items.isEmpty

/-- Puts a text into an ordered list, unless it is there. -/
def insertText (t : String) : List String → List String
  | [] => [t]
  | u :: us => if t < u then t :: u :: us else if u < t then u :: insertText t us else u :: us

theorem mem_insertText {t u : String} {us : List String} (h : u ∈ insertText t us) :
    u = t ∨ u ∈ us := by
  induction us with
  | nil => simpa [insertText] using h
  | cons v vs ih =>
    unfold insertText at h
    split at h
    · simpa using h
    · split at h
      · rcases List.mem_cons.1 h with rfl | h
        · simp
        · rcases ih h with rfl | h
          · simp
          · simp [h]
      · exact .inr h

theorem ordered_insertText (t : String) {us : List String} (h : us.Pairwise (· < ·)) :
    (insertText t us).Pairwise (· < ·) := by
  induction us with
  | nil => simp [insertText]
  | cons u us ih =>
    rw [List.pairwise_cons] at h
    unfold insertText
    split
    · rename_i hlt
      refine List.pairwise_cons.2 ⟨?_, List.pairwise_cons.2 h⟩
      intro v hv
      rcases List.mem_cons.1 hv with rfl | hv
      · exact hlt
      · exact String.lt_trans hlt (h.1 v hv)
    · split
      · rename_i hgt
        refine List.pairwise_cons.2 ⟨?_, ih h.2⟩
        intro v hv
        rcases mem_insertText hv with rfl | hv
        · exact hgt
        · exact h.1 v hv
      · exact List.pairwise_cons.2 h

/-- The set with one text more. -/
def insert (s : TextSet) (t : String) : TextSet :=
  ⟨insertText t s.items, ordered_insertText t s.ordered⟩

/-- The set of the texts of a list. -/
def ofList (ts : List String) : TextSet := ts.foldl insert empty

end TextSet

end HourlyPrices
