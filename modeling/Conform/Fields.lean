/-!
# Named fields

A list of named values. `Fields.get?` finds the value of a name; `Fields.set` gives a name a value
and keeps ascending names ascending (`ascending_set`). `Fields.ofList` makes such a list.
-/

namespace Conform.Fields

variable {α : Type}

/-- The value of a name. -/
def get? (name : String) : List (String × α) → Option α
  | [] => none
  | (k, v) :: rest => if name = k then some v else get? name rest

/-- Gives a name a value, in its place among ascending names, and leaves the others as they are. -/
def set (name : String) (v : α) : List (String × α) → List (String × α)
  | [] => [(name, v)]
  | (k, w) :: rest =>
    if name = k then (k, v) :: rest
    else if name < k then (name, v) :: (k, w) :: rest
    else (k, w) :: set name v rest

/-- The fields in name order; of a repeated name the last one counts. -/
def ofList (fields : List (String × α)) : List (String × α) :=
  fields.foldl (fun out f => set f.1 f.2 out) []

/-- Whether the names ascend, each below the next. -/
def Ascending (fields : List (String × α)) : Prop :=
  fields.Pairwise fun f g => f.1 < g.1

/-! ### Laws -/

theorem get?_set (name other : String) (v : α) (fields : List (String × α)) :
    get? other (set name v fields) = if other = name then some v else get? other fields := by
  induction fields with
  | nil => simp [set, get?]
  | cons f fs ih =>
    obtain ⟨k, w⟩ := f
    simp only [set]
    split
    · subst_vars
      simp only [get?]
      split <;> simp_all
    · split
      · simp [get?]
      · simp only [get?, ih]
        split <;> split <;> simp_all

theorem mem_set {name : String} {v : α} {fields : List (String × α)} {f : String × α}
    (h : f ∈ set name v fields) : f = (name, v) ∨ f ∈ fields := by
  induction fields with
  | nil => simpa [set] using h
  | cons g gs ih =>
    obtain ⟨k, w⟩ := g
    simp only [set] at h
    split at h
    · subst_vars
      rcases List.mem_cons.1 h with rfl | h
      · exact .inl rfl
      · exact .inr (List.mem_cons_of_mem _ h)
    · split at h
      · exact List.mem_cons.1 h
      · rcases List.mem_cons.1 h with rfl | h
        · exact .inr List.mem_cons_self
        · exact (ih h).imp_right (List.mem_cons_of_mem _)

theorem ascending_set (name : String) (v : α) {fields : List (String × α)}
    (h : Ascending fields) : Ascending (set name v fields) := by
  induction fields with
  | nil => exact List.pairwise_singleton _ _
  | cons g gs ih =>
    obtain ⟨k, w⟩ := g
    obtain ⟨above, rest⟩ := List.pairwise_cons.1 h
    simp only [set]
    split
    · exact List.pairwise_cons.2 ⟨above, rest⟩
    · split
      next below =>
        refine List.pairwise_cons.2 ⟨fun f hf => ?_, h⟩
        rcases List.mem_cons.1 hf with rfl | hf
        · exact below
        · exact String.lt_trans below (above f hf)
      next other below =>
        refine List.pairwise_cons.2 ⟨fun f hf => ?_, ih rest⟩
        rcases mem_set hf with rfl | hf
        · exact Std.lt_of_le_of_ne (String.not_lt.1 below) (Ne.symm other)
        · exact above f hf

end Conform.Fields
