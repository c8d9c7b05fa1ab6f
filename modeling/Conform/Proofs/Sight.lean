import Conform.Pass.Cursor
import Conform.Proofs.Places

/-!
# What a cursor sees

`Cursor.sees?` is the object that a cursor finds at a path. Everything that a leaf is answered
from is read off it, so that two cursors which see the same answer alike.
-/

namespace Conform

theorem Member.splitProperty_concat {m : Member} {q : Path} {p : Property}
    (h : m.path = q ++ [.property p]) : m.splitProperty.1.path = q ∧ m.splitProperty.2 = some p := by
  rw [splitProperty, h, Path.splitProperty_concat]
  exact ⟨rfl, rfl⟩

theorem Member.splitProperty_join (m : Member) :
    m.splitProperty.1.path ++ (m.splitProperty.2.map Key.property).toList = m.path := by
  have h := Path.splitProperty_join m.path
  unfold Member.splitProperty
  split
  next hs => simp
  next hs => simpa [hs] using h

def Registry.scalarOf? (r : Registry) (o : Object) : Option Property → Option Value
  | some p => r.read? o p
  | none => o.scalar?

namespace Cursor
variable {r : Registry} {c c' : Cursor} {m : Member} {p : Path}

theorem remaining?_of_le {consumed : Nat} (h : consumed ≤ p.length) :
    remaining? consumed p = some (p.drop consumed) :=
  if_pos h

theorem remaining?_of_lt {consumed : Nat} (h : p.length < consumed) : remaining? consumed p = none :=
  if_neg (Nat.not_le.2 h)

/-- The object at a path. -/
def sees? (c : Cursor) (r : Registry) (p : Path) : Option Object :=
  (remaining? c.consumed p).bind (r.at? c.origin.object)

theorem sees?_of_le (r : Registry) (h : c.consumed ≤ p.length) :
    c.sees? r p = r.at? c.origin.object (p.drop c.consumed) := by
  rw [sees?, remaining?_of_le h, Option.bind_some]

theorem sees?_of_lt (r : Registry) (h : p.length < c.consumed) : c.sees? r p = none := by
  rw [sees?, remaining?_of_lt h, Option.bind_none]

theorem find?_object (c : Cursor) (r : Registry) (m : Member) :
    (c.find? r m).map Found.object = c.sees? r m.path := by
  rw [find?, sees?, Option.map_bind]; rfl

theorem read?_eq (r : Registry) (f : Found) (p? : Option Property) :
    Cursor.read? r f p? = r.scalarOf? f.object p? := by
  cases p? <;> rfl

theorem left?_eq (c : Cursor) (r : Registry) (k : Check) :
    c.left? r k = (c.sees? r k.member.path).bind (r.scalarOf? · k.property?) := by
  rw [left?, ← find?_object, Option.bind_map]
  exact Option.bind_congr fun f _ => read?_eq r f _

theorem has_some (c : Cursor) (r : Registry) (m : Member) (q : Property) :
    c.has r m (some q) = ((c.sees? r m.path).bind (r.read? · q)).isSome := by
  rw [← find?_object, Option.bind_map, has, find?]
  cases remaining? c.consumed m.path <;> rfl

theorem has_none (c : Cursor) (r : Registry) (m : Member) :
    c.has r m none = ((remaining? c.consumed m.path).map (r.reaches c.origin.object)).getD false := by
  rw [has]
  cases remaining? c.consumed m.path <;> rfl

theorem concrete_of_sees? {x : Object} (h : c.sees? r p = some x) :
    c.consumed ≤ p.length ∧ Path.Concrete (p.drop c.consumed) := by
  obtain ⟨q, hq, hx⟩ := Option.bind_eq_some_iff.1 h
  unfold remaining? at hq
  split at hq
  next hle => cases hq; exact ⟨hle, Registry.concrete_of_at? hx⟩
  next => cases hq

theorem has_none_of_sees? {x : Object} (h : c.sees? r m.path = some x) : c.has r m none = true := by
  obtain ⟨hle, hconcrete⟩ := concrete_of_sees? h
  rw [sees?_of_le r hle] at h
  rw [has_none, remaining?_of_le hle, Option.map_some, Option.getD_some, r.reaches_concrete _ hconcrete, h]
  rfl

theorem sees?_property (r : Registry) {q : Property} {x : Object} {v : Value} (h : c.sees? r p = some x)
    (hv : r.read? x q = some v) : c.sees? r (p ++ [.property q]) = some (.value v) := by
  obtain ⟨hle, -⟩ := concrete_of_sees? h
  rw [sees?_of_le r hle] at h
  rw [sees?_of_le r (by simp only [List.length_append]; omega), List.drop_append_of_le_length hle,
    Registry.at?_append, h, Option.bind_some, Registry.at?_cons, Registry.next?, hv]
  rfl

theorem has_none_concrete (c : Cursor) (r : Registry) {m : Member} (hm : Path.Concrete m.path) :
    c.has r m none = (c.sees? r m.path).isSome := by
  rw [has_none, sees?]
  by_cases h : c.consumed ≤ m.path.length
  · rw [remaining?_of_le h, Option.map_some, Option.getD_some, Option.bind_some]
    exact r.reaches_concrete _ fun k hk => hm k (List.mem_of_mem_drop hk)
  · rw [remaining?_of_lt (Nat.not_le.1 h)]; rfl

theorem originOf?_object (c : Cursor) (r : Registry) (m : Member) :
    (c.originOf? r m).map Origin.object = c.sees? r m.path := by
  rw [originOf?, Option.map_map, ← find?_object]; rfl

/-! ### Cursors on the way to a place -/

/-- The cursor stands at a place of `o` that lies on the way to `p`. -/
structure Stands (r : Registry) (o : Object) (c : Cursor) (p : Path) : Prop where
  le : c.consumed ≤ p.length
  origin : r.at? o (p.take c.consumed) = some c.origin.object

namespace Stands
variable {o : Object} {q : Path}

theorem of_prefix (h : c.Stands r o p) (hq : q <+: p) (hle : c.consumed ≤ q.length) : c.Stands r o q := by
  obtain ⟨s, rfl⟩ := hq
  exact ⟨hle, List.take_append_of_le_length hle ▸ h.origin⟩

theorem append (h : c.Stands r o p) (q : Path) : c.Stands r o (p ++ q) := by
  refine ⟨?_, ?_⟩
  · have := h.le
    simp only [List.length_append]; omega
  · rw [List.take_append_of_le_length h.le]; exact h.origin

theorem sees (h : c.Stands r o p) : c.sees? r p = r.at? o p := by
  rw [sees?_of_le r h.le]
  conv => rhs; rw [← List.take_append_drop c.consumed p, Registry.at?_append, h.origin, Option.bind_some]

theorem has_none (h : c.Stands r o m.path) : c.has r m none = r.reaches o m.path := by
  have hsplit := r.reaches_append o (Registry.concrete_of_at? h.origin) (m.path.drop c.consumed)
  rw [List.take_append_drop, h.origin] at hsplit
  rw [Cursor.has_none, remaining?_of_le h.le, hsplit]
  rfl

end Stands

/-- Two cursors that see the same at a place, and beyond it. -/
structure Agree (r : Registry) (c c' : Cursor) (p : Path) : Prop where
  sees : c.sees? r p = c'.sees? r p
  has_none : ∀ m : Member, m.path = p → c.has r m none = c'.has r m none

namespace Agree

theorem of_stands {o : Object} (h : c.Stands r o p) (h' : c'.Stands r o p) : c.Agree r c' p :=
  ⟨h.sees.trans h'.sees.symm, fun m hm => by subst hm; exact h.has_none.trans h'.has_none.symm⟩

theorem of_eq (hc : c.consumed = c'.consumed) (ho : c.origin.object = c'.origin.object) : c.Agree r c' p :=
  ⟨by rw [sees?, sees?, hc, ho], fun m _ => by rw [Cursor.has_none, Cursor.has_none, hc, ho]⟩

theorem has (h : c.Agree r c' m.path) (p? : Option Property) : c.has r m p? = c'.has r m p? := by
  cases p? with
  | none => exact h.has_none m rfl
  | some q => rw [has_some, has_some, h.sees]

end Agree

/-! ### Operands -/

theorem hasOperand_eq (c : Cursor) (r : Registry) (m : Member) :
    c.hasOperand r m = (c.fromOperands.sees? r m.path).isSome := by
  rw [← find?_object, Option.isSome_map]; rfl

theorem right?_value {k : Check} {v : Value} (c : Cursor) (r : Registry) (hk : k.operand = .value v) :
    c.right? r k = some v := by
  simp only [right?, hk]

theorem right?_member {k : Check} (c : Cursor) (r : Registry) (hk : k.operand = .member m) :
    c.right? r k = (c.fromOperands.sees? r m.splitProperty.1.path).bind (r.scalarOf? · m.splitProperty.2) := by
  simp only [right?, hk]
  rw [← find?_object, Option.bind_map]
  exact Option.bind_congr fun f _ => read?_eq r f _

theorem right?_sample {k : Check} {s : Object} (c : Cursor) (r : Registry) (hk : k.operand = .sample s) :
    c.right? r k = (r.at? s k.member.path).bind (r.scalarOf? · k.property?) := by
  simp only [right?, hk]
  rw [Registry.at?, Option.bind_map]
  exact Option.bind_congr fun f _ => read?_eq r f _

end Cursor

end Conform
