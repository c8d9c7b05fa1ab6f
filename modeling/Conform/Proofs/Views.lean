import Conform.Object
import Mathlib.Data.List.Nodup

/-!
# Elements and children

`Contents`: what a container holds by position or by name. A document and an object have contents, and
their views are views of these (`Object.child?_eq`, `Object.elements?_eq`), so that whatever relates one
view to another is shown of contents.

`Object.WellFormed`: no container in the object has a name twice, and the names in a document
ascend. In such an object an element is the child under its key, so that the keys which lead to
elements can be followed again from the container. All that is asked about what an object contains
has one answer then, whatever the object is made of and however it is held (`Object.views_agree`).
-/

namespace Conform

namespace Fields
variable {α : Type} {fields : List (String × α)} {name : String} {v : α}

instance (fields : List (String × α)) : Decidable (Ascending fields) :=
  inferInstanceAs (Decidable (fields.Pairwise _))

theorem Ascending.nodup (h : Ascending fields) : (fields.map (·.1)).Nodup :=
  List.pairwise_map.2 (h.imp fun {f g} hlt (heq : f.1 = g.1) => String.lt_irrefl _ (heq ▸ hlt))

theorem mem_of_get? (h : get? name fields = some v) : (name, v) ∈ fields := by
  induction fields with
  | nil => cases h
  | cons f fs ih =>
    obtain ⟨k, w⟩ := f
    simp only [get?] at h
    split at h
    · simp_all
    · exact List.mem_cons_of_mem _ (ih h)

theorem ne_of_mem {f : String × α} (h : get? name fields = none) (hf : f ∈ fields) : f.1 ≠ name := by
  induction fields with
  | nil => cases hf
  | cons g gs ih =>
    obtain ⟨k, w⟩ := g
    simp only [get?] at h
    split at h
    · cases h
    next hne =>
      rcases List.mem_cons.1 hf with rfl | hf
      · exact Ne.symm hne
      · exact ih h hf

theorem get?_of_mem (h : (fields.map (·.1)).Nodup) (hm : (name, v) ∈ fields) :
    get? name fields = some v := by
  induction fields with
  | nil => cases hm
  | cons f fs ih =>
    obtain ⟨k, w⟩ := f
    obtain ⟨hk, hfs⟩ := List.nodup_cons.1 h
    simp only [get?]
    rcases List.mem_cons.1 hm with heq | hm
    · cases heq; simp
    · have hne : name ≠ k := fun heq => hk (heq ▸ List.mem_map_of_mem (f := (·.1)) hm)
      rw [if_neg hne]; exact ih hfs hm

theorem get?_map {β : Type} (f : α → β) (name : String) (fields : List (String × α)) :
    get? name (fields.map fun e => (e.1, f e.2)) = (get? name fields).map f := by
  induction fields with
  | nil => rfl
  | cons e es ih =>
    simp only [List.map_cons, get?, ih]
    split <;> rfl

end Fields

/-! ### Contents -/

/-- What a container holds, however it holds it; what is no container holds nothing. -/
inductive Contents (α : Type) where
  | nothing
  | items (xs : List α)
  | entries (es : List (String × α))

namespace Contents
variable {α β : Type} {c : Contents α} {k : Key} {x : α} {es : List (Key × α)}

def child? (k : Key) : Contents α → Option α
  | nothing => none
  | items xs =>
    match k with
    | .index i => xs[i]?
    | _ => none
  | entries es =>
    match k with
    | .name s => Fields.get? s es
    | _ => none

def size? : Contents α → Option Nat
  | nothing => none
  | items xs => some xs.length
  | entries es => some es.length

def elements? : Contents α → Option (List (Key × α))
  | nothing => none
  | items xs => some (xs.mapIdx fun i x => (.index i, x))
  | entries es => some (es.map fun e => (.name e.1, e.2))

/-- No name is there twice. -/
def Distinct : Contents α → Prop
  | nothing | items _ => True
  | entries es => (es.map (·.1)).Nodup

/-- The values without their keys. -/
def values : Contents α → List α
  | nothing => []
  | items xs => xs
  | entries es => es.map (·.2)

def map (f : α → β) : Contents α → Contents β
  | nothing => nothing
  | items xs => items (xs.map f)
  | entries es => entries (es.map fun e => (e.1, f e.2))

theorem child?_map (f : α → β) (c : Contents α) : (c.map f).child? k = (c.child? k).map f := by
  cases c with
  | nothing => rfl
  | items xs => cases k <;> simp [map, child?]
  | entries es => cases k <;> simp [map, child?, Fields.get?_map]

theorem size?_map (f : α → β) (c : Contents α) : (c.map f).size? = c.size? := by
  cases c <;> simp [map, size?]

theorem elements?_map (f : α → β) (c : Contents α) :
    (c.map f).elements? = c.elements?.map fun es => es.map fun e => (e.1, f e.2) := by
  cases c with
  | nothing => rfl
  | items xs => simp only [map, elements?, Option.map_some, Option.some_inj]; exact List.ext_getElem (by simp) (by simp)
  | entries es => simp [map, elements?]

theorem distinct_map {f : α → β} : (c.map f).Distinct ↔ c.Distinct := by
  cases c <;> simp [map, Distinct, Function.comp_def]

theorem values_map (f : α → β) (c : Contents α) : (c.map f).values = c.values.map f := by
  cases c <;> simp [map, values]

theorem mem_elements?_of_child? (h : c.child? k = some x) : ∃ es, c.elements? = some es ∧ (k, x) ∈ es := by
  cases c with
  | nothing => cases h
  | items xs =>
    cases k with
    | index i =>
      obtain ⟨hi, rfl⟩ := List.getElem?_eq_some_iff.1 h
      exact ⟨_, rfl, List.mem_mapIdx.2 ⟨i, hi, rfl⟩⟩
    | name | property | expand => cases h
  | entries es =>
    cases k with
    | name s => exact ⟨_, rfl, List.mem_map.2 ⟨(s, x), Fields.mem_of_get? h, rfl⟩⟩
    | index | property | expand => cases h

/-- Where no name is there twice the elements are children. -/
theorem child?_of_mem_elements? (hc : c.Distinct) (he : c.elements? = some es) (hm : (k, x) ∈ es) :
    c.child? k = some x := by
  cases c with
  | nothing => cases he
  | items xs =>
    cases he
    obtain ⟨i, hi, heq⟩ := List.mem_mapIdx.1 hm
    cases heq
    exact List.getElem?_eq_getElem hi
  | entries fields =>
    cases he
    obtain ⟨⟨name, y⟩, hy, heq⟩ := List.mem_map.1 hm
    cases heq
    exact Fields.get?_of_mem hc hy

theorem isLiteral_of_mem_elements? (he : c.elements? = some es) (hm : (k, x) ∈ es) : k.isLiteral = true := by
  cases c with
  | nothing => cases he
  | items xs =>
    cases he
    obtain ⟨i, hi, heq⟩ := List.mem_mapIdx.1 hm
    cases heq; rfl
  | entries fields =>
    cases he
    obtain ⟨f, hf, heq⟩ := List.mem_map.1 hm
    cases heq; rfl

theorem mem_values_of_mem_elements? (he : c.elements? = some es) (hm : (k, x) ∈ es) : x ∈ c.values := by
  cases c with
  | nothing => cases he
  | items xs =>
    cases he
    obtain ⟨i, hi, heq⟩ := List.mem_mapIdx.1 hm
    cases heq
    exact List.getElem_mem hi
  | entries fields =>
    cases he
    obtain ⟨f, hf, heq⟩ := List.mem_map.1 hm
    cases heq
    exact List.mem_map_of_mem hf

theorem size?_eq (c : Contents α) : c.size? = c.elements?.map List.length := by
  cases c <;> simp [size?, elements?]

theorem lt_size?_of_child? {i : Nat} (h : c.child? (.index i) = some x) : i < c.size?.getD 0 := by
  cases c with
  | nothing | entries => cases h
  | items xs => exact (List.getElem?_eq_some_iff.1 h).1

theorem nodup_keys_of_elements? (hc : c.Distinct) (he : c.elements? = some es) : (es.map Prod.fst).Nodup := by
  cases c with
  | nothing => cases he
  | items xs =>
    cases he
    have hkeys : (xs.mapIdx fun i x => (Key.index i, x)).map Prod.fst = (List.range xs.length).map Key.index :=
      List.ext_getElem (by simp) (by simp)
    rw [hkeys]
    exact List.nodup_range.map fun i j h => Key.index.inj h
  | entries fields =>
    cases he
    have hkeys : (fields.map fun e => (Key.name e.1, e.2)).map Prod.fst = (fields.map (·.1)).map Key.name := by
      rw [List.map_map, List.map_map]
      rfl
    rw [hkeys]
    exact hc.map fun s t h => Key.name.inj h

end Contents

/-! ### Documents -/

namespace Json

mutual

/-- The names in every object of the document ascend. -/
def WellFormed : Json → Prop
  | list items => WellFormedItems items
  | object fields => Fields.Ascending fields ∧ WellFormedFields fields
  | _ => True

def WellFormedItems : List Json → Prop
  | [] => True
  | v :: vs => WellFormed v ∧ WellFormedItems vs

def WellFormedFields : List (String × Json) → Prop
  | [] => True
  | (_, v) :: fs => WellFormed v ∧ WellFormedFields fs

end

theorem wellFormedItems_iff {items : List Json} :
    WellFormedItems items ↔ ∀ v ∈ items, v.WellFormed := by
  induction items with
  | nil => simp [WellFormedItems]
  | cons v vs ih => simp [WellFormedItems, ih]

theorem wellFormedFields_iff {fields : List (String × Json)} :
    WellFormedFields fields ↔ ∀ f ∈ fields, f.2.WellFormed := by
  induction fields with
  | nil => simp [WellFormedFields]
  | cons f fs ih => simp [WellFormedFields, ih]

mutual

def decWellFormed : (j : Json) → Decidable j.WellFormed
  | list items => decWellFormedItems items
  | object fields =>
    have := decWellFormedFields fields
    inferInstanceAs (Decidable (Fields.Ascending fields ∧ WellFormedFields fields))
  | null | bool _ | int _ | float _ | str _ => isTrue trivial

def decWellFormedItems : (items : List Json) → Decidable (WellFormedItems items)
  | [] => isTrue trivial
  | v :: vs =>
    have := decWellFormed v
    have := decWellFormedItems vs
    inferInstanceAs (Decidable (v.WellFormed ∧ WellFormedItems vs))

def decWellFormedFields : (fields : List (String × Json)) → Decidable (WellFormedFields fields)
  | [] => isTrue trivial
  | (_, v) :: fs =>
    have := decWellFormed v
    have := decWellFormedFields fs
    inferInstanceAs (Decidable (v.WellFormed ∧ WellFormedFields fs))

end

instance (j : Json) : Decidable j.WellFormed :=
  j.decWellFormed

namespace WellFormed
variable {j v : Json} {k : Key} {items : List Json} {fields : List (String × Json)}

theorem item (h : (list items).WellFormed) (hv : v ∈ items) : v.WellFormed := by
  rw [WellFormed, wellFormedItems_iff] at h
  exact h v hv

theorem ascending (h : (object fields).WellFormed) : Fields.Ascending fields := by
  rw [WellFormed] at h
  exact h.1

theorem field {name : String} (h : (object fields).WellFormed) (hv : (name, v) ∈ fields) :
    v.WellFormed := by
  rw [WellFormed, wellFormedFields_iff] at h
  exact h.2 _ hv

end WellFormed

def contents : Json → Contents Json
  | list items => .items items
  | object fields => .entries fields
  | _ => .nothing

section Views
variable {j v : Json} {k : Key} {es : List (Key × Json)}

theorem child?_eq (j : Json) : j.child? k = j.contents.child? k := by
  cases j <;> rfl

theorem size?_eq (j : Json) : j.size? = j.contents.size? := by
  cases j <;> rfl

theorem elements?_eq (j : Json) : j.elements? = j.contents.elements? := by
  cases j <;> rfl

theorem WellFormed.distinct (h : j.WellFormed) : j.contents.Distinct := by
  cases j with
  | object fields => exact h.ascending.nodup
  | null | bool | int | float | str | list => trivial

theorem WellFormed.of_mem_values (h : j.WellFormed) (hv : v ∈ j.contents.values) : v.WellFormed := by
  cases j with
  | list items => exact h.item hv
  | object fields =>
    obtain ⟨⟨name, w⟩, hw, rfl⟩ := List.mem_map.1 hv
    exact h.field hw
  | null | bool | int | float | str => cases hv

theorem mem_elements?_of_child? (h : j.child? k = some v) : ∃ es, j.elements? = some es ∧ (k, v) ∈ es := by
  rw [child?_eq] at h; rw [elements?_eq]
  exact Contents.mem_elements?_of_child? h

theorem child?_of_mem_elements? (h : j.WellFormed) (he : j.elements? = some es) (hm : (k, v) ∈ es) :
    j.child? k = some v := by
  rw [elements?_eq] at he; rw [child?_eq]
  exact Contents.child?_of_mem_elements? h.distinct he hm

theorem mem_values_of_mem_elements? (he : j.elements? = some es) (hm : (k, v) ∈ es) : v ∈ j.contents.values := by
  rw [elements?_eq] at he
  exact Contents.mem_values_of_mem_elements? he hm

theorem WellFormed.child (h : j.WellFormed) (hc : j.child? k = some v) : v.WellFormed := by
  obtain ⟨es, hes, hm⟩ := mem_elements?_of_child? hc
  exact h.of_mem_values (mem_values_of_mem_elements? hes hm)

end Views

end Json

/-! ### Objects -/

namespace Object

mutual

/-- No container in the object has a name twice. -/
def WellFormed : Object → Prop
  | scalar _ | value _ => True
  | json j => j.WellFormed
  | sequence items => WellFormedItems items
  | table entries | record entries => (entries.map (·.1)).Nodup ∧ WellFormedEntries entries
  | optional none => True
  | optional (some o) => WellFormed o
  | shared o => WellFormed o

def WellFormedItems : List Object → Prop
  | [] => True
  | o :: os => WellFormed o ∧ WellFormedItems os

def WellFormedEntries : List (String × Object) → Prop
  | [] => True
  | (_, o) :: es => WellFormed o ∧ WellFormedEntries es

end

theorem wellFormedItems_iff {items : List Object} :
    WellFormedItems items ↔ ∀ o ∈ items, o.WellFormed := by
  induction items with
  | nil => simp [WellFormedItems]
  | cons o os ih => simp [WellFormedItems, ih]

theorem wellFormedEntries_iff {entries : List (String × Object)} :
    WellFormedEntries entries ↔ ∀ e ∈ entries, e.2.WellFormed := by
  induction entries with
  | nil => simp [WellFormedEntries]
  | cons e es ih => simp [WellFormedEntries, ih]

mutual

def decWellFormed : (o : Object) → Decidable o.WellFormed
  | scalar _ | value _ | optional none => isTrue trivial
  | json j => inferInstanceAs (Decidable j.WellFormed)
  | sequence items => decWellFormedItems items
  | table entries | record entries =>
    have := decWellFormedEntries entries
    inferInstanceAs (Decidable ((entries.map (·.1)).Nodup ∧ WellFormedEntries entries))
  | optional (some o) | shared o => decWellFormed o

def decWellFormedItems : (items : List Object) → Decidable (WellFormedItems items)
  | [] => isTrue trivial
  | o :: os =>
    have := decWellFormed o
    have := decWellFormedItems os
    inferInstanceAs (Decidable (o.WellFormed ∧ WellFormedItems os))

def decWellFormedEntries : (entries : List (String × Object)) → Decidable (WellFormedEntries entries)
  | [] => isTrue trivial
  | (_, o) :: es =>
    have := decWellFormed o
    have := decWellFormedEntries es
    inferInstanceAs (Decidable (o.WellFormed ∧ WellFormedEntries es))

end

instance (o : Object) : Decidable o.WellFormed :=
  o.decWellFormed

/-- What an object holds, through whatever it is held in. -/
def contents : Object → Contents Object
  | scalar _ => .nothing
  | value (.list items) => .items (items.map value)
  | value _ => .nothing
  | json j => j.contents.map json
  | sequence items => .items items
  | table entries | record entries => .entries entries
  | optional none => .nothing
  | optional (some o) => o.contents
  | shared o => o.contents

variable {o x : Object} {k : Key} {es : List (Key × Object)}

theorem child?_eq : ∀ o : Object, o.child? k = o.contents.child? k
  | scalar _ | sequence _ | table _ | record _ | optional none => rfl
  | value (.list items) => by cases k <;> simp [child?, contents, Contents.child?]
  | value .null | value (.bool _) | value (.int _) | value (.float _) | value (.str _) | value (.interval ..) => rfl
  | json j => by rw [child?, contents, Contents.child?_map, Json.child?_eq]
  | optional (some o) | shared o => by rw [child?, contents]; exact child?_eq o

theorem size?_eq_contents : ∀ o : Object, o.size? = o.contents.size?
  | scalar _ | sequence _ | table _ | record _ | optional none => rfl
  | value v => by cases v <;> simp [size?, contents, Contents.size?]
  | json j => by rw [size?, contents, Contents.size?_map, Json.size?_eq]
  | optional (some o) | shared o => by rw [size?, contents]; exact size?_eq_contents o

theorem elements?_eq : ∀ o : Object, o.elements? = o.contents.elements?
  | scalar _ | sequence _ | table _ | record _ | optional none => rfl
  | value (.list items) => congrArg some (List.ext_getElem (by simp) (by simp))
  | value .null | value (.bool _) | value (.int _) | value (.float _) | value (.str _) | value (.interval ..) => rfl
  | json j => by rw [elements?, contents, Contents.elements?_map, Json.elements?_eq]
  | optional (some o) | shared o => by rw [elements?, contents]; exact elements?_eq o

theorem WellFormed.distinct : ∀ {o : Object}, o.WellFormed → o.contents.Distinct
  | scalar _, _ | sequence _, _ | optional none, _ => trivial
  | value v, _ => by cases v <;> trivial
  | json j, ho => by
    rw [WellFormed] at ho
    exact Contents.distinct_map.2 ho.distinct
  | table _, ho | record _, ho => by
    rw [WellFormed] at ho
    exact ho.1
  | optional (some _), ho | shared _, ho => by
    rw [WellFormed] at ho; rw [contents]
    exact distinct ho

theorem WellFormed.of_mem_values : ∀ {o : Object}, o.WellFormed → x ∈ o.contents.values → x.WellFormed
  | scalar _, _, h | optional none, _, h => by cases h
  | value (.list _), _, h => by
    obtain ⟨v, -, rfl⟩ := List.mem_map.1 h
    rw [WellFormed]
    trivial
  | value .null, _, h | value (.bool _), _, h | value (.int _), _, h | value (.float _), _, h
  | value (.str _), _, h | value (.interval ..), _, h => by cases h
  | json j, ho, h => by
    rw [contents, Contents.values_map] at h
    obtain ⟨v, hv, rfl⟩ := List.mem_map.1 h
    rw [WellFormed] at ho ⊢
    exact ho.of_mem_values hv
  | sequence _, ho, h => by
    rw [WellFormed, wellFormedItems_iff] at ho
    exact ho x h
  | table _, ho, h | record _, ho, h => by
    obtain ⟨e, he, rfl⟩ := List.mem_map.1 h
    rw [WellFormed, wellFormedEntries_iff] at ho
    exact ho.2 e he
  | optional (some _), ho, h | shared _, ho, h => by
    rw [WellFormed] at ho; rw [contents] at h
    exact of_mem_values ho h

/-! ### How the views agree -/

theorem mem_elements?_of_child? (h : o.child? k = some x) : ∃ es, o.elements? = some es ∧ (k, x) ∈ es := by
  rw [child?_eq] at h; rw [elements?_eq]
  exact Contents.mem_elements?_of_child? h

theorem child?_of_mem_elements? (ho : o.WellFormed) (he : o.elements? = some es) (hm : (k, x) ∈ es) :
    o.child? k = some x := by
  rw [elements?_eq] at he; rw [child?_eq]
  exact Contents.child?_of_mem_elements? ho.distinct he hm

theorem isLiteral_of_mem_elements? (he : o.elements? = some es) (hm : (k, x) ∈ es) : k.isLiteral = true := by
  rw [elements?_eq] at he
  exact Contents.isLiteral_of_mem_elements? he hm

theorem isLiteral_of_child? (h : o.child? k = some x) : k.isLiteral = true := by
  obtain ⟨es, hes, hm⟩ := mem_elements?_of_child? h
  exact isLiteral_of_mem_elements? hes hm

theorem mem_values_of_mem_elements? (he : o.elements? = some es) (hm : (k, x) ∈ es) : x ∈ o.contents.values := by
  rw [elements?_eq] at he
  exact Contents.mem_values_of_mem_elements? he hm

theorem WellFormed.child (ho : o.WellFormed) (h : o.child? k = some x) : x.WellFormed := by
  obtain ⟨es, hes, hm⟩ := mem_elements?_of_child? h
  exact ho.of_mem_values (mem_values_of_mem_elements? hes hm)

/-- Containers and nothing else have a size, and it is the number of their elements. -/
theorem size?_eq (o : Object) : o.size? = o.elements?.map List.length := by
  rw [size?_eq_contents, elements?_eq, Contents.size?_eq]

theorem lt_size?_of_child? {i : Nat} (h : o.child? (.index i) = some x) : i < o.size?.getD 0 := by
  rw [child?_eq] at h; rw [size?_eq_contents]
  exact Contents.lt_size?_of_child? h

theorem nodup_keys_of_elements? (ho : o.WellFormed) (he : o.elements? = some es) : (es.map Prod.fst).Nodup := by
  rw [elements?_eq] at he
  exact Contents.nodup_keys_of_elements? ho.distinct he

/-- The views of an object agree: it has elements exactly if it has a size, and then as many; their keys are names
and positions, no two the same; and the children are the elements, each under its key. -/
theorem views_agree {o : Object} (ho : o.WellFormed) :
    (o.elements?.isSome = true ↔ o.size?.isSome = true) ∧
    (∀ es, o.elements? = some es → o.size? = some es.length ∧ (es.map Prod.fst).Nodup ∧
      ∀ e ∈ es, e.1.isLiteral = true) ∧
    ∀ k x, o.child? k = some x ↔ ∃ es, o.elements? = some es ∧ (k, x) ∈ es := by
  refine ⟨?_, fun es hes => ⟨?_, ?_, ?_⟩, fun k x => ⟨mem_elements?_of_child?, ?_⟩⟩
  · rw [o.size?_eq, Option.isSome_map]
  · rw [o.size?_eq, hes, Option.map_some]
  · exact nodup_keys_of_elements? ho hes
  · exact fun e he => isLiteral_of_mem_elements? hes he
  · rintro ⟨es, hes, hmem⟩
    exact child?_of_mem_elements? ho hes hmem

/-- A record, which may be missing, held through a reference. It shows a document, a list of values and a table, in
this order. -/
theorem views_agree_reading :
    let doc : Object := json (.object [("at", .list [.null]), ("by", .str "ann")])
    let o := shared (optional (some (record [("source", doc), ("range", value (.list [.int 1, .int 9])),
      ("limits", ofEntries [("low", scalar (.int 1)), ("high", optional none)])])))
    o.WellFormed ∧ o.size? = some 3 ∧ o.child? (.name "source") = some doc ∧
      ∃ es, o.elements? = some es ∧ es.length = 3 ∧ (.name "source", doc) ∈ es := by
  intro doc o
  have ho : o.WellFormed := by decide +kernel
  obtain ⟨-, hcount, hchildren⟩ := views_agree ho
  have hsize : o.size? = some 3 := rfl
  have hchild : o.child? (.name "source") = some doc := rfl
  obtain ⟨es, hes, hmem⟩ := (hchildren _ _).1 hchild
  have hlength : es.length = 3 := Option.some.inj ((hcount es hes).1.symm.trans hsize)
  exact ⟨ho, hsize, hchild, es, hes, hlength, hmem⟩

end Object

end Conform
