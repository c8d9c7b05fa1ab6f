import Conform.Value.Order

/-!
# How values rank

`Value.Ranks a b o` says how `a` stands to `b`, by rules of which none is about floats or intervals:
values of one kind rank as their contents do, and lists by the first items that are not equal, or else
by their lengths. Values that have no float in them are compared by these rules
(`Value.compare?_eq_some_iff`), so that the laws of the order are read off the rules by induction: the
other way round it is reversed (`Ranks.swap`), only equal values are equal (`Ranks.eq`), and it is
transitive where it is defined (`Ranks.trans`). It is defined for two values at a distance if it is
for neighbours, because items that decide between the neighbours decide between them as well.
-/

namespace Conform.Value

/-! ### What a value is made of -/

mutual

/-- Whether `p` holds of a value and of all values in it. -/
def every (p : Value → Bool) : Value → Bool
  | list items => p (list items) && everyItem p items
  | interval low high openLow openHigh =>
    p (interval low high openLow openHigh) && every p low && every p high
  | v => p v

def everyItem (p : Value → Bool) : List Value → Bool
  | [] => true
  | v :: vs => every p v && everyItem p vs

end

def isFloat : Value → Bool
  | float _ => true
  | _ => false

def isInterval : Value → Bool
  | interval .. => true
  | _ => false

/-- There is no float in the value, at any depth. -/
def FloatFree (v : Value) : Prop :=
  v.every (! ·.isFloat) = true

/-- There is no interval in the value, at any depth. -/
def IntervalFree (v : Value) : Prop :=
  v.every (! ·.isInterval) = true

instance (v : Value) : Decidable v.FloatFree :=
  inferInstanceAs (Decidable (_ = true))

instance (v : Value) : Decidable v.IntervalFree :=
  inferInstanceAs (Decidable (_ = true))

variable {a b c : Value} {as bs : List Value} {o o' : Ordering}

theorem floatFree_cons : (list (a :: as)).FloatFree ↔ a.FloatFree ∧ (list as).FloatFree := by
  simp [FloatFree, every, everyItem, isFloat]

theorem intervalFree_cons : (list (a :: as)).IntervalFree ↔ a.IntervalFree ∧ (list as).IntervalFree := by
  simp [IntervalFree, every, everyItem, isInterval]

/-! ### The rules -/

/-- How one value stands to another. Only values of one kind stand to each other in any way, and a list does
whose items are compared up to the first that are not equal. -/
inductive Ranks : Value → Value → Ordering → Prop
  | null : Ranks null null .eq
  | bool (a b : Bool) : Ranks (bool a) (bool b) (compare a b)
  | int (a b : Int) : Ranks (int a) (int b) (compare a b)
  | str (a b : String) : Ranks (str a) (str b) (compare a b)
  | nil : Ranks (list []) (list []) .eq
  | shorter (b : Value) (bs : List Value) : Ranks (list []) (list (b :: bs)) .lt
  | longer (a : Value) (as : List Value) : Ranks (list (a :: as)) (list []) .gt
  /-- The first items decide, whatever comes behind them. -/
  | decided {a b : Value} {o : Ordering} (h : Ranks a b o) (ho : o ≠ .eq) (as bs : List Value) :
    Ranks (list (a :: as)) (list (b :: bs)) o
  | tied {a b : Value} {as bs : List Value} {o : Ordering} (h : Ranks a b .eq) (hrest : Ranks (list as) (list bs) o) :
    Ranks (list (a :: as)) (list (b :: bs)) o

theorem compare?_cons (a b : Value) (as bs : List Value) :
    (list (a :: as)).compare? (list (b :: bs)) =
      match a.compare? b with
      | some .eq => (list as).compare? (list bs)
      | other => other := rfl

/-- Of three that do not descend the first and the last are as the first two are, or as the last two if
those are equal. -/
theorem compare_then {α : Type} [Ord α] [Std.TransOrd α] [Std.LawfulEqOrd α] {a b c : α} (h : compare a b ≠ .gt)
    (h' : compare b c ≠ .gt) : compare a c = (compare a b).then (compare b c) := by
  cases hab : compare a b with
  | gt => exact absurd hab h
  | eq => rw [Std.LawfulEqCmp.eq_of_compare hab]; rfl
  | lt => exact Std.TransCmp.lt_of_lt_of_isLE hab (Ordering.isLE_iff_ne_gt.2 h')

namespace Ranks

theorem compare?_eq (h : Ranks a b o) : a.compare? b = some o := by
  induction h with
  | null | bool | int | str | nil | shorter | longer => rfl
  | decided _ ho as bs ih =>
    rw [compare?_cons, ih]
    split <;> simp_all
  | tied _ _ ih ihrest => rw [compare?_cons, ih, ihrest]

theorem swap (h : Ranks a b o) : Ranks b a o.swap := by
  induction h with
  | null => exact .null
  | bool a b => rw [← Std.OrientedCmp.eq_swap]; exact .bool b a
  | int a b => rw [← Std.OrientedCmp.eq_swap]; exact .int b a
  | str a b => rw [← Std.OrientedCmp.eq_swap]; exact .str b a
  | nil => exact .nil
  | shorter b bs => exact .longer b bs
  | longer a as => exact .shorter a as
  | @decided _ _ o _ ho as bs ih => exact .decided ih (by cases o <;> simp_all) bs as
  | tied _ _ ih ihrest => exact .tied ih ihrest

theorem eq (h : Ranks a b .eq) : a = b := by
  generalize ho : Ordering.eq = o at h
  induction h with
  | null | nil => rfl
  | bool | int | str => rw [Std.LawfulEqCmp.eq_of_compare ho.symm]
  | shorter | longer => cases ho
  | decided _ hne => exact absurd ho.symm hne
  | tied _ _ ih ihrest =>
    obtain rfl := ih rfl
    cases ihrest ho
    rfl

theorem intervalFree (h : Ranks a b .eq) : a.IntervalFree := by
  generalize ho : Ordering.eq = o at h
  induction h with
  | null | bool | int | str | nil => rfl
  | shorter | longer => cases ho
  | decided _ hne => exact absurd ho.symm hne
  | tied _ _ ih ihrest => exact intervalFree_cons.2 ⟨ih rfl, ihrest ho⟩

theorem trans (h : Ranks a b o) (h' : Ranks b c o') (ho : o ≠ .gt) (ho' : o' ≠ .gt) : Ranks a c (o.then o') := by
  induction h generalizing c o' with
  | null => cases h'; exact .null
  | bool a b =>
    cases h' with
    | bool _ c => rw [← compare_then ho ho']; exact .bool a c
  | int a b =>
    cases h' with
    | int _ c => rw [← compare_then ho ho']; exact .int a c
  | str a b =>
    cases h' with
    | str _ c => rw [← compare_then ho ho']; exact .str a c
  | nil => exact h'
  | shorter b bs =>
    cases h' with
    | longer => exact absurd rfl ho'
    | decided | tied => exact .shorter _ _
  | longer => exact absurd rfl ho
  | @decided _ _ o h hne as bs ih =>
    have hlt : o = .lt := by cases o <;> simp_all
    subst hlt
    cases h' with
    | longer => exact absurd rfl ho'
    | decided h' _ => exact .decided (ih h' ho ho') hne _ _
    | tied h' _ => exact .decided (h'.eq ▸ h) hne _ _
  | @tied _ _ _ _ o h hrest ih ihrest =>
    -- the first items of the first two lists are the same, so that it is known how those of the last two stand
    obtain rfl := h.eq
    cases h' with
    | longer => exact absurd rfl ho'
    | @decided _ _ o' h' hne =>
      have hlt : o' = .lt := by cases o' <;> simp_all
      subst hlt
      cases o with
      | gt => exact absurd rfl ho
      | lt | eq => exact .decided h' hne _ _
    | tied h' hrest' => exact .tied h' (ihrest hrest' ho ho')

end Ranks

mutual

theorem ranks_of_compare? : ∀ {a b : Value} {o : Ordering}, a.FloatFree → b.FloatFree → a.compare? b = some o →
    Ranks a b o
  | null, b, _, _, hb, h => by
    cases b with
    | null => cases h; exact .null
    | bool | int | float | str | list | interval => cases h
  | bool a, b, _, _, hb, h => by
    cases b with
    | bool b => cases h; exact .bool a b
    | null | int | float | str | list | interval => cases h
  | int a, b, _, _, hb, h => by
    cases b with
    | int b => cases h; exact .int a b
    | float => cases hb
    | null | bool | str | list | interval => cases h
  | str a, b, _, _, hb, h => by
    cases b with
    | str b => cases h; exact .str a b
    | null | bool | int | float | list | interval => cases h
  | list as, b, _, ha, hb, h => by
    cases b with
    | list bs => rw [compare?] at h; exact ranks_of_compareItems? ha hb h
    | null | bool | int | float | str | interval => cases h
  | float _, _, _, ha, _, _ => by cases ha
  | interval .., b, _, _, _, h => by cases b <;> cases h

theorem ranks_of_compareItems? : ∀ {as bs : List Value} {o : Ordering}, (list as).FloatFree →
    (list bs).FloatFree → compareItems? as bs = some o → Ranks (list as) (list bs) o
  | [], [], _, _, _, h => by cases h; exact .nil
  | [], b :: bs, _, _, _, h => by cases h; exact .shorter b bs
  | a :: as, [], _, _, _, h => by cases h; exact .longer a as
  | a :: as, b :: bs, o, ha, hb, h => by
    obtain ⟨ha, has⟩ := floatFree_cons.1 ha
    obtain ⟨hb, hbs⟩ := floatFree_cons.1 hb
    rw [compareItems?] at h
    split at h
    next hab => exact .tied (ranks_of_compare? ha hb hab) (ranks_of_compareItems? has hbs h)
    next hne => exact .decided (ranks_of_compare? ha hb h) (fun ho => hne (ho ▸ h)) as bs

end

mutual

theorem ranks_self : ∀ {a : Value}, a.FloatFree → a.IntervalFree → Ranks a a .eq
  | null, _, _ => .null
  | bool a, _, _ => by simpa using Ranks.bool a a
  | int a, _, _ => by simpa using Ranks.int a a
  | str a, _, _ => by simpa using Ranks.str a a
  | list as, ha, ha' => ranks_self_items ha ha'
  | float _, ha, _ => by cases ha
  | interval .., _, ha' => by cases ha'

theorem ranks_self_items : ∀ {as : List Value}, (list as).FloatFree → (list as).IntervalFree →
    Ranks (list as) (list as) .eq
  | [], _, _ => .nil
  | a :: as, ha, ha' => by
    obtain ⟨ha, has⟩ := floatFree_cons.1 ha
    obtain ⟨ha', has'⟩ := intervalFree_cons.1 ha'
    exact .tied (ranks_self ha ha') (ranks_self_items has has')

end

theorem compare?_eq_some_iff (ha : a.FloatFree) (hb : b.FloatFree) : a.compare? b = some o ↔ Ranks a b o :=
  ⟨ranks_of_compare? ha hb, Ranks.compare?_eq⟩

/-! ### Equality -/

theorem floatFree_interval {low high : Value} {openLow openHigh : Bool} :
    (interval low high openLow openHigh).FloatFree ↔ low.FloatFree ∧ high.FloatFree := by
  simp [FloatFree, every, isFloat]

mutual

/-- Only floats need not be the same as themselves. -/
theorem same_iff : ∀ {a b : Value}, a.FloatFree → (a.same b = true ↔ a = b)
  | null, b, _ => by cases b <;> simp [same]
  | bool a, b, _ => by cases b <;> simp [same]
  | int a, b, _ => by cases b <;> simp [same]
  | str a, b, _ => by cases b <;> simp [same]
  | list as, b, ha => by
    cases b with
    | list bs => rw [same, sameItems_iff ha, list.injEq]
    | null | bool | int | float | str | interval => simp [same]
  | interval low high _ _, b, ha => by
    obtain ⟨hlow, hhigh⟩ := floatFree_interval.1 ha
    cases b with
    | interval => simp [same, same_iff hlow, same_iff hhigh, and_assoc]
    | null | bool | int | float | str | list => simp [same]
  | float _, _, ha => by cases ha

theorem sameItems_iff : ∀ {as bs : List Value}, (list as).FloatFree → (sameItems as bs = true ↔ as = bs)
  | [], bs, _ => by cases bs <;> simp [sameItems]
  | a :: as, bs, h => by
    obtain ⟨ha, has⟩ := floatFree_cons.1 h
    cases bs with
    | nil => simp [sameItems]
    | cons b bs => simp [sameItems, same_iff ha, sameItems_iff has]

end

/-! ### The laws -/

/-- Values without floats are partially ordered by `compare?`: what it finds is reversed if the values change
places, values are equal if they are the same and have no intervals in them, and where a value is not greater
than a second one and this not greater than a third, the first and the third are comparable, and the first is
less if there is a step up anywhere between them. -/
theorem compare?_partial_order (ha : a.FloatFree) (hb : b.FloatFree) (hc : c.FloatFree) :
    (∀ o, a.compare? b = some o ↔ b.compare? a = some o.swap) ∧
    (a.compare? b = some .eq ↔ a = b ∧ a.IntervalFree) ∧ ((a == b) = true ↔ a = b) ∧
    (∀ o o', a.compare? b = some o → b.compare? c = some o' → o ≠ .gt → o' ≠ .gt →
      a.compare? c = some (o.then o') ∧ o.then o' ≠ .gt ∧ (o = .lt ∨ o' = .lt → o.then o' = .lt)) := by
  refine ⟨fun o => ?_, ?_, same_iff ha, fun o o' h h' ho ho' => ⟨?_, ?_⟩⟩
  · rw [compare?_eq_some_iff ha hb, compare?_eq_some_iff hb ha]
    exact ⟨Ranks.swap, fun h => Ordering.swap_swap (o := o) ▸ h.swap⟩
  · rw [compare?_eq_some_iff ha hb]
    constructor
    · exact fun h => ⟨h.eq, h.intervalFree⟩
    · rintro ⟨rfl, hintervals⟩
      exact ranks_self ha hintervals
  · rw [compare?_eq_some_iff ha hb] at h
    rw [compare?_eq_some_iff hb hc] at h'
    exact (h.trans h' ho ho').compare?_eq
  · cases o <;> cases o' <;> simp_all

/-- The second items decide on either side, so that the first and the third row are comparable although the
one ends and the other goes on with an interval. -/
theorem compare?_partial_order_rows :
    let a := list [int 1, list [str "x", bool false], null]
    let b := list [int 1, list [str "x", bool true]]
    let c := list [int 1, list [str "y"], interval (int 0) (int 1) false false]
    (a.FloatFree ∧ b.FloatFree ∧ c.FloatFree) ∧ a.compare? b = some .lt ∧ b.compare? a = some .gt ∧
      b.compare? c = some .lt ∧ a.compare? c = some .lt := by
  intro a b c
  have hab : a.compare? b = some .lt := by decide +kernel
  have hbc : b.compare? c = some .lt := by decide +kernel
  have h := compare?_partial_order (a := a) (b := b) (c := c) (by decide) (by decide) (by decide)
  exact ⟨⟨by decide, by decide, by decide⟩, hab, (h.1 .lt).1 hab, hbc, (h.2.2.2 .lt .lt hab hbc nofun nofun).1⟩

end Conform.Value
