import Conform.Proofs.Views

/-!
# Heights

What is stored in a container is lower than the container (`Object.height_lt_of_mem_elements?`), so
there is an end to going down.
-/

namespace Conform

theorem height_le_of_mem {α : Type} {height : α → Nat} {heights : List α → Nat}
    (hcons : ∀ x xs, heights (x :: xs) = max (height x) (heights xs)) {x : α} {xs : List α} (h : x ∈ xs) :
    height x ≤ heights xs := by
  induction xs with
  | nil => cases h
  | cons y ys ih =>
    rw [hcons]
    rcases List.mem_cons.1 h with rfl | h
    · exact Nat.le_max_left ..
    · exact Nat.le_trans (ih h) (Nat.le_max_right ..)

theorem Value.height_le_of_mem_items {v : Value} {items : List Value} (h : v ∈ items) : v.height ≤ heightItems items :=
  height_le_of_mem (fun _ _ => by rw [heightItems]) h

/-! ### Documents -/

namespace Json
variable {j v : Json} {k : Key}

theorem height_le_of_mem_items {items : List Json} (h : v ∈ items) : v.height ≤ heightItems items :=
  height_le_of_mem (fun _ _ => by rw [heightItems]) h

theorem height_le_of_mem_fields {name : String} {fields : List (String × Json)} (h : (name, v) ∈ fields) :
    v.height ≤ heightFields fields := by
  have hcons : ∀ (f : String × Json) (fs : List (String × Json)),
      heightFields (f :: fs) = max f.2.height (heightFields fs) := fun f fs => by rw [heightFields]
  exact height_le_of_mem hcons h

theorem height_lt_of_mem_values (h : v ∈ j.contents.values) : v.height < j.height := by
  cases j with
  | list items => exact Nat.lt_succ_of_le (height_le_of_mem_items h)
  | object fields =>
    obtain ⟨⟨name, w⟩, hw, rfl⟩ := List.mem_map.1 h
    exact Nat.lt_succ_of_le (height_le_of_mem_fields hw)
  | null | bool | int | float | str => cases h

theorem height_lt_of_mem_elements? {es : List (Key × Json)} (he : j.elements? = some es) (hm : (k, v) ∈ es) :
    v.height < j.height :=
  height_lt_of_mem_values (mem_values_of_mem_elements? he hm)

theorem height_lt_of_child? (h : j.child? k = some v) : v.height < j.height := by
  obtain ⟨es, hes, hm⟩ := mem_elements?_of_child? h
  exact height_lt_of_mem_elements? hes hm

end Json

/-! ### Objects -/

namespace Object
variable {o x : Object} {k : Key}

theorem height_le_of_mem_items {items : List Object} (h : x ∈ items) : x.height ≤ heightItems items :=
  height_le_of_mem (fun _ _ => by rw [heightItems]) h

theorem height_le_of_mem_entries {name : String} {entries : List (String × Object)} (h : (name, x) ∈ entries) :
    x.height ≤ heightEntries entries := by
  have hcons : ∀ (e : String × Object) (es : List (String × Object)),
      heightEntries (e :: es) = max e.2.height (heightEntries es) := fun e es => by rw [heightEntries]
  exact height_le_of_mem hcons h

theorem height_lt_of_mem_values : ∀ {o : Object}, x ∈ o.contents.values → x.height < o.height
  | scalar _, h | optional none, h => by cases h
  | value (.list items), h => by
    obtain ⟨v, hv, rfl⟩ := List.mem_map.1 h
    simp only [height, Value.height]
    exact Nat.lt_succ_of_le (Value.height_le_of_mem_items hv)
  | value .null, h | value (.bool _), h | value (.int _), h | value (.float _), h | value (.str _), h
  | value (.interval ..), h => by cases h
  | json j, h => by
    rw [contents, Contents.values_map] at h
    obtain ⟨v, hv, rfl⟩ := List.mem_map.1 h
    simp only [height]
    exact Json.height_lt_of_mem_values hv
  | sequence _, h => by
    rw [height]
    exact Nat.lt_succ_of_le (height_le_of_mem_items h)
  | table _, h | record _, h => by
    obtain ⟨⟨name, y⟩, hy, rfl⟩ := List.mem_map.1 h
    rw [height]
    exact Nat.lt_succ_of_le (height_le_of_mem_entries hy)
  | optional (some _), h | shared _, h => by
    rw [contents] at h; rw [height]
    exact height_lt_of_mem_values h

theorem height_lt_of_mem_elements? {es : List (Key × Object)} (he : o.elements? = some es) (hm : (k, x) ∈ es) :
    x.height < o.height :=
  height_lt_of_mem_values (mem_values_of_mem_elements? he hm)

theorem height_lt_of_child? (h : o.child? k = some x) : x.height < o.height := by
  obtain ⟨es, hes, hm⟩ := mem_elements?_of_child? h
  exact height_lt_of_mem_elements? hes hm

end Object

end Conform
