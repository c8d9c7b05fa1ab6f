import Conform.Lookup
import Conform.Proofs.Views

/-!
# Objects at paths

`Registry.at?` is the object at a path, computed values counted as objects. It composes
(`at?_append`), and questions of existence along concrete paths reduce to it (`reaches_append`).
-/

namespace Conform

theorem Object.child?_value (v : Value) (k : Key) :
    (((value v).child? k).bind scalar?).map value = (value v).child? k := by
  cases v with
  | list items =>
    cases k with
    | index i => cases h : items[i]? <;> simp [child?, h, scalar?]
    | name | property | expand => rfl
  | null | bool | int | float | str | interval => rfl

theorem Found.child?_object (f : Found) (k : Key) :
    (f.child? k).map object = f.object.child? k := by
  cases f with
  | stored o => rw [child?, Option.map_map]; exact Option.map_id'
  | computed v => rw [child?, Option.map_map]; exact Object.child?_value v k

namespace Registry

/-- The object that a path leads to. -/
def at? (r : Registry) (o : Object) (p : Path) : Option Object :=
  (r.find? o p).map Found.object

def next? (r : Registry) (o : Object) : Key → Option Object
  | .name s => o.child? (.name s)
  | .index i => o.child? (.index i)
  | .property p => (r.read? o p).map .value
  | .expand _ => none

variable {r : Registry} {o x : Object} {p q : Path} {k : Key}

theorem step?_object (r : Registry) (f : Found) (k : Key) :
    (r.step? f k).map Found.object = r.next? f.object k := by
  cases k with
  | name s => exact f.child?_object _
  | index i => exact f.child?_object _
  | property p => exact Option.map_map ..
  | expand e => rfl

theorem foldlM_object (r : Registry) (f : Found) (p : Path) :
    (p.foldlM r.step? f).map Found.object = p.foldlM r.next? f.object := by
  induction p generalizing f with
  | nil => rfl
  | cons k p ih =>
    simp only [List.foldlM_cons, Option.bind_eq_bind, Option.map_bind]
    rw [← step?_object, Option.bind_map]
    exact Option.bind_congr fun g _ => ih g

theorem at?_eq_foldlM (r : Registry) (o : Object) (p : Path) :
    r.at? o p = p.foldlM r.next? o :=
  r.foldlM_object (.stored o) p

@[simp] theorem at?_nil (r : Registry) (o : Object) : r.at? o [] = some o := rfl

theorem at?_cons (r : Registry) (o : Object) (k : Key) (p : Path) :
    r.at? o (k :: p) = (r.next? o k).bind (r.at? · p) := by
  simp only [at?_eq_foldlM, List.foldlM_cons, Option.bind_eq_bind]

theorem at?_singleton (r : Registry) (o : Object) (k : Key) : r.at? o [k] = r.next? o k := by
  rw [at?_cons]
  exact Option.bind_fun_some (r.next? o k)

theorem at?_append (r : Registry) (o : Object) (p q : Path) :
    r.at? o (p ++ q) = (r.at? o p).bind (r.at? · q) := by
  simp only [at?_eq_foldlM, List.foldlM_append, Option.bind_eq_bind]

theorem at?_child (r : Registry) (h : o.child? k = some x) : r.at? o [k] = some x := by
  have hk := Object.isLiteral_of_child? h
  cases k with
  | name | index => simp [at?_cons, next?, h]
  | property | expand => cases hk

theorem wellFormed_next? (ho : o.WellFormed) (h : r.next? o k = some x) : x.WellFormed := by
  cases k with
  | name s => exact ho.child h
  | index i => exact ho.child h
  | property p =>
    obtain ⟨v, -, rfl⟩ := Option.map_eq_some_iff.1 h
    simp only [Object.WellFormed]
  | expand e => cases h

theorem wellFormed_at? (ho : o.WellFormed) (h : r.at? o p = some x) : x.WellFormed := by
  induction p generalizing o with
  | nil => cases h; exact ho
  | cons k p ih =>
    rw [at?_cons] at h
    obtain ⟨y, hy, h⟩ := Option.bind_eq_some_iff.1 h
    exact ih (wellFormed_next? ho hy) h

theorem isSome_at? (r : Registry) (o : Object) (p : Path) :
    (r.at? o p).isSome = (r.find? o p).isSome :=
  Option.isSome_map

end Registry

/-! ### Concrete paths -/

namespace Path

/-- A path that leads to one place at most. -/
def Concrete (p : Path) : Prop :=
  ∀ k ∈ p, k.isExpansion = false

instance (p : Path) : Decidable p.Concrete :=
  inferInstanceAs (Decidable (∀ k ∈ p, k.isExpansion = false))

/-- A path of names and positions. -/
def Literal (p : Path) : Prop :=
  ∀ k ∈ p, k.isLiteral = true

variable {p q : Path} {k : Key}

theorem Literal.concrete (h : Literal p) : Concrete p := by
  intro k hk
  cases k with
  | name | index | property => rfl
  | expand => exact absurd (h _ hk) (by simp [Key.isLiteral])

theorem Concrete.append (hp : Concrete p) (hq : Concrete q) : Concrete (p ++ q) :=
  fun k hk => (List.mem_append.1 hk).elim (hp k) (hq k)

theorem covers_iff {p q : Path} (hp : p.Literal) : covers p q = true ↔ p <+: q := by
  induction p generalizing q with
  | nil => simp
  | cons k p ih =>
    have hk := hp k (List.mem_cons_self ..)
    have ih := fun q => ih (q := q) fun l hl => hp l (List.mem_cons_of_mem _ hl)
    cases q with
    | nil => simp [covers]
    | cons l q =>
      have hstands : k.stands l = true ↔ k = l := by
        cases k with
        | name s => cases l <;> simp [Key.stands, Key.isExpansion, BEq.beq, Key.same]
        | index i => cases l <;> simp [Key.stands, Key.isExpansion, BEq.beq, Key.same]
        | property | expand => cases hk
      rw [covers, Bool.and_eq_true, hstands, ih, List.cons_prefix_cons]

end Path

namespace Registry
variable {r : Registry} {p : Path} {k : Key}

theorem concrete_of_at? {o x : Object} (h : r.at? o p = some x) : Path.Concrete p := by
  induction p generalizing o with
  | nil => exact fun k hk => absurd hk List.not_mem_nil
  | cons k p ih =>
    rw [at?_cons] at h
    obtain ⟨y, hy, h⟩ := Option.bind_eq_some_iff.1 h
    intro l hl
    rcases List.mem_cons.1 hl with rfl | hl
    · cases l with
      | name | index | property => rfl
      | expand e => cases hy
    · exact ih h l hl

/-- Names and positions lead to parts of the object. -/
theorem find?_literal (r : Registry) {o : Object} (hp : Path.Literal p) : r.find? o p = (r.at? o p).map .stored := by
  induction p generalizing o with
  | nil => rfl
  | cons k p ih =>
    obtain ⟨hk, hp⟩ := List.forall_mem_cons.1 hp
    have hstep : r.step? (.stored o) k = (r.next? o k).map .stored := by
      cases k with
      | name | index => rfl
      | property | expand => cases hk
    have hcons : r.find? o (k :: p) = (r.step? (.stored o) k).bind fun f => p.foldlM r.step? f := rfl
    rw [hcons, hstep, Option.bind_map, at?_cons, Option.map_bind]
    exact Option.bind_congr fun x _ => ih hp

/-! ### Questions of existence -/

theorem reachesFrom_cons (r : Registry) (f : Found) (p : Path) (hk : k.isExpansion = false) :
    r.reachesFrom (k :: p) f = ((r.step? f k).map (r.reachesFrom p)).getD false := by
  rw [reachesFrom.eq_3 _ _ _ _ fun e he => by subst he; cases hk]
  cases r.step? f k <;> rfl

/-- Whether a path leads anywhere depends on the object that it starts from, not on how that has
been reached. -/
theorem reachesFrom_object (r : Registry) (p : Path) (f : Found) :
    r.reachesFrom p f = r.reaches f.object p := by
  induction p generalizing f with
  | nil => simp only [reaches, reachesFrom]
  | cons k p ih =>
    by_cases hk : k.isExpansion = true
    · cases k with
      | expand e => simp only [reaches, reachesFrom, Found.object]
      | name | index | property => cases hk
    · rw [Bool.not_eq_true] at hk
      have hf : r.reachesFrom p = (r.reaches · p) ∘ Found.object := funext ih
      rw [reaches, reachesFrom_cons r f p hk, reachesFrom_cons r _ p hk, hf, ← Option.map_map,
        ← Option.map_map, step?_object, step?_object]
      rfl

theorem reaches_append (r : Registry) (o : Object) {q : Path} (hq : Path.Concrete q) (p : Path) :
    r.reaches o (q ++ p) = ((r.at? o q).map (r.reaches · p)).getD false := by
  induction q generalizing o with
  | nil => rfl
  | cons k q ih =>
    have hf : r.reachesFrom (q ++ p) = (r.reaches · (q ++ p)) ∘ Found.object :=
      funext (r.reachesFrom_object (q ++ p))
    rw [reaches, List.cons_append, reachesFrom_cons r _ _ (hq k (List.mem_cons_self ..)), hf,
      ← Option.map_map, step?_object, at?_cons]
    cases h : r.next? o k with
    | none => simp [Found.object, h]
    | some x => simpa [Found.object, h] using ih x fun l hl => hq l (List.mem_cons_of_mem _ hl)

theorem reaches_concrete (r : Registry) (o : Object) (hp : Path.Concrete p) :
    r.reaches o p = (r.at? o p).isSome := by
  rw [← List.append_nil p, reaches_append r o hp, List.append_nil]
  cases r.at? o p <;> simp [reaches, reachesFrom]

end Registry

end Conform
