import Conform.Proofs.Committed
import Conform.Proofs.Prediction
import Conform.Proofs.Refusal

/-!
# What a committed write changes

`Found.Takes` tells when a key has a place in what the path has led to so far, `Found.Gains` what
becomes of that when the place is written. A write that the rules accept succeeds if and only if
every key of its path has a place, and then nothing is different but what is at the path and what
the containers on the way to it gain (`Validator.commit_changes_one_location`).
-/

namespace Conform

namespace Found

/-- The key has a place in what is there: any name has one in an object and, since an object is made
there, in a null and in what is only just added; a position has one below the length of a list. -/
inductive Takes : Option Found → Key → Prop
  | field (fields : List (String × Json)) (s : String) : Takes (some (.stored (.json (.object fields)))) (.name s)
  | null (s : String) : Takes (some (.stored (.json .null))) (.name s)
  | added (s : String) : Takes none (.name s)
  | item (items : List Json) (i : Nat) (h : i < items.length) : Takes (some (.stored (.json (.list items)))) (.index i)

/-- What is there before and after the place under the key has been written. An object has the names
that it had and the key, a list is as long as it was. -/
inductive Gains : Option Found → Key → Option Found → Prop
  | field {fields fields' : List (String × Json)} {s : String}
    (h : ∀ t, t ∈ fields'.map (·.1) ↔ t = s ∨ t ∈ fields.map (·.1)) :
    Gains (some (.stored (.json (.object fields)))) (.name s) (some (.stored (.json (.object fields'))))
  | null (s : String) (v : Json) :
    Gains (some (.stored (.json .null))) (.name s) (some (.stored (.json (.object [(s, v)]))))
  | added (s : String) (v : Json) : Gains none (.name s) (some (.stored (.json (.object [(s, v)]))))
  | item {items items' : List Json} (i : Nat) (h : items'.length = items.length) :
    Gains (some (.stored (.json (.list items)))) (.index i) (some (.stored (.json (.list items'))))

end Found

theorem Fields.mem_names_set {α : Type} {name t : String} {v : α} {fields : List (String × α)} :
    t ∈ (set name v fields).map (·.1) ↔ t = name ∨ t ∈ fields.map (·.1) := by
  induction fields with
  | nil => simp [set]
  | cons f fs ih =>
    obtain ⟨k, w⟩ := f
    rw [set]
    split
    next heq => simp [heq]
    next =>
      split
      · simp
      · rw [List.map_cons, List.map_cons, List.mem_cons, List.mem_cons, ih]
        exact or_left_comm

theorem forall_split_cons {α : Type} {x : α} {xs : List α} {P : List α → α → Prop} :
    (∀ front k rest, x :: xs = front ++ k :: rest → P front k) ↔
      P [] x ∧ ∀ front k rest, xs = front ++ k :: rest → P (x :: front) k := by
  constructor
  · intro h
    exact ⟨h [] x xs rfl, fun front k rest heq => h (x :: front) k rest (congrArg (x :: ·) heq)⟩
  · rintro ⟨hnil, hcons⟩ front k rest heq
    cases front with
    | nil =>
      obtain ⟨rfl, -⟩ := List.cons.inj heq
      exact hnil
    | cons y front =>
      obtain ⟨rfl, hrest⟩ := List.cons.inj heq
      exact hcons front k rest hrest

namespace Json
variable {r : Registry} {candidate doc doc' v after : Json} {k : Key} {p q rest : Path}

/-- What a walk comes to that takes whatever is missing for a null. -/
def slot : Path → Json → Json
  | [], doc => doc
  | k :: p, doc => slot p ((doc.child? k).getD .null)

theorem slot_null (p : Path) : slot p .null = .null := by
  induction p with
  | nil => rfl
  | cons k p ih => exact ih

theorem find?_cons (r : Registry) (doc : Json) (hk : k.isLiteral = true) (hp : p.Literal) :
    r.find? (.json doc) (k :: p) = (doc.child? k).bind fun c => r.find? (.json c) p := by
  rw [r.find?_literal (List.forall_mem_cons.2 ⟨hk, hp⟩), r.at?_json_cons doc hk, Option.map_bind]
  exact Option.bind_congr fun c _ => (r.find?_literal hp).symm

/-- A path of names and positions leads to the slot, or to nothing and the slot is a null. -/
theorem find?_cases (r : Registry) (doc : Json) (hp : p.Literal) :
    r.find? (.json doc) p = some (.stored (.json (slot p doc))) ∨
      r.find? (.json doc) p = none ∧ slot p doc = .null := by
  induction p generalizing doc with
  | nil => exact .inl rfl
  | cons k p ih =>
    obtain ⟨hk, hp⟩ := List.forall_mem_cons.1 hp
    rw [find?_cons r doc hk hp, slot]
    cases doc.child? k with
    | none => exact .inr ⟨rfl, slot_null p⟩
    | some c => exact ih c hp

/-- A key has a place where the walk can set something under it. -/
theorem takes_iff (hq : q.Literal) :
    Found.Takes (r.find? (.json doc) q) k ↔ ∃ v after, Sets v k (slot q doc) after := by
  rcases find?_cases r doc hq with h | ⟨h, hslot⟩
  · rw [h]
    constructor
    · intro htakes
      generalize slot q doc = before at htakes
      cases htakes with
      | field fields s => exact ⟨.null, _, .field s fields⟩
      | null s => exact ⟨.null, _, .fresh s⟩
      | item items i hi => exact ⟨.null, _, .item i items hi⟩
    · rintro ⟨v, after, hset⟩
      generalize slot q doc = before at hset
      cases hset with
      | fresh s => exact .null s
      | field s fields => exact .field fields s
      | item i items hi => exact .item items i hi
  · rw [h, hslot]
    constructor
    · rintro ⟨⟩
      exact ⟨.null, _, .fresh _⟩
    · rintro ⟨v, after, ⟨⟩⟩
      exact .added _

theorem gains_of_sets (hq : q.Literal) (hset : Sets v k (slot q doc) after) :
    Found.Gains (r.find? (.json doc) q) k (some (.stored (.json after))) := by
  rcases find?_cases r doc hq with h | ⟨h, hslot⟩
  · rw [h]
    generalize slot q doc = before at hset
    cases hset with
    | fresh s => exact .null s v
    | field s fields => exact .field fun t => Fields.mem_names_set
    | item i items hi => exact .item i (List.length_set ..)
  · rw [hslot] at hset
    rw [h]
    cases hset
    exact .added _ v

theorem Sets.exists {before : Json} (h : Sets v k before after) (w : Json) : ∃ after, Sets w k before after := by
  cases h with
  | fresh s => exact ⟨_, .fresh s⟩
  | field s fields => exact ⟨_, .field s fields⟩
  | item i items hi => exact ⟨_, .item i items hi⟩

theorem put_iff_sets : (∃ doc', put candidate p doc = (doc', true)) ↔
    ∀ q k rest, p = q ++ k :: rest → ∃ v after, Sets v k (slot q doc) after := by
  induction p generalizing doc with
  | nil => simp [put]
  | cons k p ih =>
    rw [forall_split_cons (P := fun q k => ∃ v after, Sets v k (slot q doc) after)]
    constructor
    · rintro ⟨doc', h⟩
      obtain ⟨v, hv, hset⟩ := put_cons h
      exact ⟨⟨v, doc', hset⟩, ih.1 ⟨v, hv⟩⟩
    · rintro ⟨⟨w, after, hset⟩, hrest⟩
      obtain ⟨v, hv⟩ := ih.2 hrest
      obtain ⟨doc', hset⟩ := hset.exists v
      exact ⟨doc', put_of_sets hset hv⟩

theorem exists_sets_of_put (h : put candidate (q ++ k :: rest) doc = (doc', true)) :
    ∃ v after, r.find? (.json doc') q = some (.stored (.json after)) ∧ Sets v k (slot q doc) after := by
  induction q generalizing doc doc' with
  | nil =>
    obtain ⟨v, -, hset⟩ := put_cons h
    exact ⟨v, doc', rfl, hset⟩
  | cons l q ih =>
    obtain ⟨w, hv, hset⟩ := put_cons h
    have hq : Path.Literal q := fun k hk => literal_of_put hv k (List.mem_append_left _ hk)
    rw [find?_cons r doc' hset.isLiteral hq, hset.child?_self, Option.bind_some, slot]
    exact ih hv

theorem literal_of_takes (h : ∀ q k rest, p = q ++ k :: rest → Found.Takes (r.find? (.json doc) q) k) : p.Literal := by
  intro k hk
  obtain ⟨q, rest, rfl⟩ := List.append_of_mem hk
  have htakes := h q k rest rfl
  generalize r.find? (.json doc) q = before at htakes
  cases htakes <;> rfl

theorem literal_of_split (hp : p.Literal) (h : p = q ++ k :: rest) : q.Literal :=
  fun l hl => hp l (h ▸ List.mem_append_left _ hl)

theorem put_iff_takes : (∃ doc', put candidate p doc = (doc', true)) ↔
    ∀ q k rest, p = q ++ k :: rest → Found.Takes (r.find? (.json doc) q) k := by
  constructor
  · rintro ⟨doc', h⟩ q k rest hsplit
    exact (takes_iff (literal_of_split (literal_of_put h) hsplit)).2 (put_iff_sets.1 ⟨doc', h⟩ q k rest hsplit)
  · intro h
    refine put_iff_sets.2 fun q k rest hsplit => ?_
    exact (takes_iff (literal_of_split (literal_of_takes h) hsplit)).1 (h q k rest hsplit)

theorem gains_of_put (h : put candidate p doc = (doc', true)) (hsplit : p = q ++ k :: rest) :
    Found.Gains (r.find? (.json doc) q) k (r.find? (.json doc') q) := by
  have hq := literal_of_split (literal_of_put h) hsplit
  subst hsplit
  obtain ⟨v, after, hafter, hset⟩ := exists_sets_of_put (r := r) h
  rw [hafter]
  exact gains_of_sets hq hset

end Json

namespace Validator

/-- A candidate that the rules accept is written if and only if every key of the path has a place.
Then the path leads to the candidate, any other path of names and positions leads to what it led to
before unless it goes on from this one or this one goes on from it, and on the way objects have the
names that they had and the next key of the path, while lists are as long as they were. -/
theorem commit_changes_one_location (v : Validator) (doc candidate : Json) (m : Member)
    (haccepted : (v.prevalidate (.json doc) m (.json candidate)).status ≠ .fail) :
    ((∃ doc', v.commit doc m candidate = (doc', .ok ())) ↔
      ∀ q k rest, m.path = q ++ k :: rest → Found.Takes (v.terms.registry.find? (.json doc) q) k) ∧
    ∀ doc', v.commit doc m candidate = (doc', .ok ()) →
      v.terms.registry.find? (.json doc') m.path = some (.stored (.json candidate)) ∧
      (∀ q : Path, q.Literal → ¬ m.path <+: q → ¬ q <+: m.path →
        v.terms.registry.find? (.json doc') q = v.terms.registry.find? (.json doc) q) ∧
      ∀ q k rest, m.path = q ++ k :: rest →
        Found.Gains (v.terms.registry.find? (.json doc) q) k (v.terms.registry.find? (.json doc') q) := by
  have hwritten : ∀ {doc'}, v.commit doc m candidate = (doc', .ok ()) ↔ Json.put candidate m.path doc = (doc', true) :=
    ⟨fun h => (of_commit h).2, commit_of_valid haccepted⟩
  refine ⟨(exists_congr fun _ => hwritten).trans Json.put_iff_takes, fun doc' h => ?_⟩
  have hput := hwritten.1 h
  refine ⟨?_, fun q hq hin hout => ?_, fun q k rest => Json.gains_of_put hput⟩
  · rw [Registry.find?_literal _ (Json.literal_of_put hput), Json.at?_put hput, Option.map_some]
  · rw [Registry.find?_literal _ hq, Registry.find?_literal _ hq, Json.at?_put_apart hput hq hin hout]

theorem commit_changes_one_location_limits :
    let m : Member := { path := [.name "hosts", .index 0, .name "limits", .name "port"] }
    let v : Validator := { rule := .bind m (.condition (.compare .lt) (.value (.int 65536))) }
    let doc : Json := .object [("hosts", .list [.object [("name", .str "db")]])]
    let doc' : Json := .object [("hosts", .list [.object [("limits", .object [("port", .int 80)]), ("name", .str "db")]])]
    let other : Path := [.name "hosts", .index 0, .name "name"]
    (v.prevalidate (.json doc) m (.json (.int 80))).status ≠ .fail ∧ v.commit doc m (.int 80) = (doc', .ok ()) ∧
      v.terms.registry.find? (.json doc') m.path = some (.stored (.json (.int 80))) ∧
      v.terms.registry.find? (.json doc') other = v.terms.registry.find? (.json doc) other ∧
      ∀ q k rest, m.path = q ++ k :: rest → Found.Takes (v.terms.registry.find? (.json doc) q) k := by
  intro m v doc doc' other
  have haccepted : (v.prevalidate (.json doc) m (.json (.int 80))).status ≠ .fail := by decide
  have hcommit : v.commit doc m (.int 80) = (doc', .ok ()) := commit_of_valid haccepted rfl
  obtain ⟨hplaces, hwritten⟩ := commit_changes_one_location v doc (.int 80) m haccepted
  obtain ⟨hfind, hframe, -⟩ := hwritten doc' hcommit
  refine ⟨haccepted, hcommit, hfind, hframe other ?_ ?_ ?_, hplaces.1 ⟨doc', hcommit⟩⟩
  · simp [other, Path.Literal, Key.isLiteral]
  · simp [other, m]
  · simp [other, m]

end Validator

end Conform
