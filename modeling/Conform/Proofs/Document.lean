import Conform.Commit
import Conform.Proofs.Places

/-!
# Documents with a place written

`Json.Sets` is one step of `Json.put` (`put_step`). What has been put is found where it was put
(`at?_put`), and a place that existed before keeps the keys of everything around it
(`elementKeys?_put`).
-/

namespace Conform

/-! ### One step -/

/-- `after` is `before` with `v` under a key. -/
inductive Json.Sets (v : Json) : Key → Json → Json → Prop
  | fresh (s : String) : Sets v (.name s) .null (.object [(s, v)])
  | field (s : String) (fields : List (String × Json)) :
    Sets v (.name s) (.object fields) (.object (Fields.set s v fields))
  | item (i : Nat) (items : List Json) (h : i < items.length) :
    Sets v (.index i) (.list items) (.list (items.set i v))

/-- The keys of the elements of a container. -/
def Object.elementKeys? (o : Object) : Option (List Key) :=
  o.elements?.map (·.map Prod.fst)

theorem Fields.names_set {α : Type} {name : String} {v : α} {fields : List (String × α)} (h : Ascending fields)
    (hname : (get? name fields).isSome) : (set name v fields).map (·.1) = fields.map (·.1) := by
  induction fields with
  | nil => cases hname
  | cons f fs ih =>
    obtain ⟨k, w⟩ := f
    obtain ⟨habove, hfs⟩ := List.pairwise_cons.1 h
    by_cases heq : name = k
    · rw [set, if_pos heq]; rfl
    · rw [get?, if_neg heq] at hname
      obtain ⟨x, hx⟩ := Option.isSome_iff_exists.1 hname
      have hlt : ¬ name < k := String.lt_asymm (habove _ (mem_of_get? hx))
      rw [set, if_neg heq, if_neg hlt, List.map_cons, List.map_cons, ih hfs hname]

namespace Json.Sets
variable {k l : Key} {v before after : Json}

theorem isLiteral (h : Sets v k before after) : k.isLiteral = true := by
  cases h <;> rfl

theorem child?_self (h : Sets v k before after) : after.child? k = some v := by
  cases h with
  | fresh s => simp [child?, Fields.get?]
  | field s fields => simp [child?, Fields.get?_set]
  | item i items hi => simp [child?, hi]

theorem child?_of_ne (h : Sets v k before after) (hl : l ≠ k) : after.child? l = before.child? l := by
  cases h with
  | fresh s =>
    cases l with
    | name t => simp_all [child?, Fields.get?]
    | index | property | expand => rfl
  | field s fields =>
    cases l with
    | name t => simp_all [child?, Fields.get?_set]
    | index | property | expand => rfl
  | item i items hi =>
    cases l with
    | index j => simp_all [child?, Ne.symm]
    | name | property | expand => rfl

theorem wellFormed (h : Sets v k before after) (hb : before.WellFormed) (hv : v.WellFormed) :
    after.WellFormed := by
  cases h with
  | fresh s => simp [WellFormed, WellFormedFields, Fields.Ascending, hv]
  | field s fields =>
    rw [WellFormed, wellFormedFields_iff] at hb ⊢
    refine ⟨Fields.ascending_set s v hb.1, fun f hf => ?_⟩
    rcases Fields.mem_set hf with rfl | hf
    · exact hv
    · exact hb.2 f hf
  | item i items hi =>
    rw [WellFormed, wellFormedItems_iff] at hb ⊢
    intro w hw
    rcases List.mem_or_eq_of_mem_set hw with hw | rfl
    · exact hb w hw
    · exact hv

theorem elementKeys? (h : Sets v k before after) (hb : before.WellFormed) (hk : (before.child? k).isSome) :
    (Object.json after).elementKeys? = (Object.json before).elementKeys? := by
  cases h with
  | fresh s => cases hk
  | field s fields =>
    have hnames := congrArg (List.map Key.name) (Fields.names_set (v := v) hb.ascending hk)
    simpa [Object.elementKeys?, Object.elements?, elements?, Function.comp_def] using hnames
  | item i items hi =>
    exact congrArg some (List.ext_getElem (by simp) (by simp [List.getElem_set]))

end Json.Sets

/-! ### Whole paths -/

theorem Registry.at?_json_cons (r : Registry) (j : Json) {k : Key} (hk : k.isLiteral = true) (p : Path) :
    r.at? (.json j) (k :: p) = (j.child? k).bind fun c => r.at? (.json c) p := by
  rw [at?_cons]
  cases k with
  | name | index => exact Option.bind_map ..
  | property | expand => cases hk

namespace Json
variable {r : Registry} {candidate doc doc' : Json} {k : Key} {p q : Path}

/-- A step goes on from the child under the key, or from nothing, or the walk ends here. -/
theorem put_step {ok : Bool} (h : put candidate (k :: p) doc = (doc', ok)) :
    doc' = doc ∧ ok = false ∨
      ∃ v, put candidate p ((doc.child? k).getD .null) = (v, ok) ∧ Sets v k doc doc' := by
  cases k with
  | name s =>
    cases doc with
    | null =>
      obtain ⟨hdoc, hok⟩ := Prod.mk.inj h
      exact .inr ⟨_, Prod.ext rfl hok, hdoc ▸ .fresh s⟩
    | object fields =>
      obtain ⟨hdoc, hok⟩ := Prod.mk.inj h
      exact .inr ⟨_, Prod.ext rfl hok, hdoc ▸ .field s fields⟩
    | bool | int | float | str | list => cases h; exact .inl ⟨rfl, rfl⟩
  | index i =>
    cases doc with
    | list items =>
      cases hitem : items[i]? with
      | none =>
        simp only [put, hitem] at h
        cases h
        exact .inl ⟨rfl, rfl⟩
      | some item =>
        simp only [put, hitem] at h
        obtain ⟨hdoc, hok⟩ := Prod.mk.inj h
        have hchild : ((list items).child? (.index i)).getD .null = item := by rw [child?, hitem]; rfl
        obtain ⟨hi, -⟩ := List.getElem?_eq_some_iff.1 hitem
        rw [hchild]
        exact .inr ⟨_, Prod.ext rfl hok, hdoc ▸ .item i items hi⟩
    | null | bool | int | float | str | object => cases h; exact .inl ⟨rfl, rfl⟩
  | property | expand => cases doc <;> cases h <;> exact .inl ⟨rfl, rfl⟩

theorem put_cons (h : put candidate (k :: p) doc = (doc', true)) :
    ∃ v, put candidate p ((doc.child? k).getD .null) = (v, true) ∧ Sets v k doc doc' :=
  (put_step h).resolve_left fun hstay => Bool.noConfusion hstay.2

theorem literal_of_put (h : put candidate p doc = (doc', true)) : p.Literal := by
  induction p generalizing doc doc' with
  | nil => exact fun k hk => absurd hk List.not_mem_nil
  | cons k p ih =>
    obtain ⟨v, hv, hset⟩ := put_cons h
    intro l hl
    rcases List.mem_cons.1 hl with rfl | hl
    · exact hset.isLiteral
    · exact ih hv l hl

theorem at?_put (h : put candidate p doc = (doc', true)) : r.at? (.json doc') p = some (.json candidate) := by
  induction p generalizing doc doc' with
  | nil => cases h; rfl
  | cons k p ih =>
    obtain ⟨v, hv, hset⟩ := put_cons h
    rw [r.at?_json_cons doc' hset.isLiteral, hset.child?_self, Option.bind_some, ih hv]

theorem wellFormed_put (h : put candidate p doc = (doc', true)) (hdoc : doc.WellFormed)
    (hc : candidate.WellFormed) : doc'.WellFormed := by
  induction p generalizing doc doc' with
  | nil => cases h; exact hc
  | cons k p ih =>
    obtain ⟨v, hv, hset⟩ := put_cons h
    refine hset.wellFormed hdoc (ih hv ?_)
    cases hchild : doc.child? k with
    | none => simp [WellFormed]
    | some c => exact hdoc.child hchild

theorem put_of_at? (hp : p.Literal) (h : (r.at? (.json doc) p).isSome) :
    (put candidate p doc).2 = true := by
  induction p generalizing doc with
  | nil => rfl
  | cons k p ih =>
    have hk := hp k (List.mem_cons_self ..)
    obtain ⟨x, hx⟩ := Option.isSome_iff_exists.1 h
    rw [r.at?_json_cons doc hk] at hx
    obtain ⟨c, hc, hx⟩ := Option.bind_eq_some_iff.1 hx
    have hok := ih (fun l hl => hp l (List.mem_cons_of_mem _ hl)) (Option.isSome_of_eq_some hx)
    cases doc with
    | object fields =>
      cases k with
      | name s =>
        have hc : Fields.get? s fields = some c := hc
        rw [put, hc]
        exact hok
      | index | property | expand => cases hc
    | list items =>
      cases k with
      | index i =>
        have hc : items[i]? = some c := hc
        rw [put, hc]
        exact hok
      | name | property | expand => cases hc
    | null | bool | int | float | str => cases hc

/-- Writing a place that exists leaves the keys of every container that is not inside it. -/
theorem elementKeys?_put (h : put candidate p doc = (doc', true)) (hdoc : doc.WellFormed)
    (hp : (r.at? (.json doc) p).isSome) (hq : q.Literal) (hpq : ¬ p <+: q) :
    (r.at? (.json doc') q).bind Object.elementKeys? = (r.at? (.json doc) q).bind Object.elementKeys? := by
  induction p generalizing doc doc' q with
  | nil => exact absurd List.nil_prefix hpq
  | cons k p ih =>
    obtain ⟨v, hv, hset⟩ := put_cons h
    obtain ⟨x, hat⟩ := Option.isSome_iff_exists.1 hp
    rw [r.at?_json_cons doc hset.isLiteral] at hat
    obtain ⟨c, hc, hx⟩ := Option.bind_eq_some_iff.1 hat
    cases q with
    | nil => exact hset.elementKeys? hdoc (by rw [hc]; rfl)
    | cons l q =>
      have hl := hq l (List.mem_cons_self ..)
      rw [r.at?_json_cons doc hl, r.at?_json_cons doc' hl]
      -- the way to `q` goes on with the way to `p`, or leaves it here
      by_cases hlk : l = k
      · subst hlk
        rw [hc] at hv
        rw [hset.child?_self, hc]
        exact ih hv (hdoc.child hc) (Option.isSome_of_eq_some hx) (fun k hk => hq k (List.mem_cons_of_mem _ hk))
          fun hprefix => hpq (List.cons_prefix_cons.2 ⟨rfl, hprefix⟩)
      · rw [hset.child?_of_ne hlk]

end Json

end Conform
