import Conform.Proofs.Expansions

/-!
# What a path with expansions asks

A path that has expansions asks for one of its concretions (`Registry.Concretion`) to lead somewhere.
A concretion puts, from left to right, the path to an element in the place of each expansion, one of
those that a visit of the object shows that it has come to. `Registry.reaches` is a loop in a loop,
left as soon as something is found; it finds something if and only if a concretion resolves
(`Registry.reaches_iff_exists_concretion`).
-/

namespace Conform

namespace Registry

/-- What a visit without a bound shows if nothing ends it, each with the path to it. -/
def visited (r : Registry) (o : Object) (e : Expansion) : List (Path × Object) :=
  match r.visit (m := Id) none o (fun x seen => .yield (seen ++ [x])) [] e with
  | some (.done seen) | some (.yield seen) => seen
  | none => []

/-- The path has the keys of the other one, but for its expansions. In their place is the path to
something visited from where the path has led so far. -/
inductive Concretion (r : Registry) (o : Object) : Path → Path → Prop
  | nil : Concretion r o [] []
  | keep {keys p : Path} {k : Key} (h : Concretion r o keys p) (hk : k.isExpansion = false) :
    Concretion r o (keys ++ [k]) (p ++ [k])
  | replace {keys p s : Path} {e : Expansion} {x y : Object} (h : Concretion r o keys p) (hx : r.at? o p = some x)
    (hy : (s, y) ∈ r.visited x e) : Concretion r o (keys ++ [.expand e]) (p ++ s)

variable {r : Registry} {o x y : Object} {e : Expansion} {k : Key} {keys rest p q s : Path}

theorem visitEach_collect {α : Type} (xs seen : List α) :
    visitEach (m := Id) (fun x seen => .yield (seen ++ [x])) xs seen = .yield (seen ++ xs) := by
  induction xs generalizing seen with
  | nil => rw [List.append_nil]; rfl
  | cons x xs ih =>
    rw [visitEach_cons]
    exact (ih (seen ++ [x])).trans (by rw [List.append_assoc, List.singleton_append])

theorem visited_eq (r : Registry) (o : Object) (e : Expansion) : r.visited o e = (r.found? none o e).getD [] := by
  rw [visited, visit_eq]
  cases r.found? none o e with
  | none => rfl
  | some found => rw [Option.map_some, visitEach_collect, List.nil_append, Option.getD_some]

theorem leads_of_mem_visited (ho : o.WellFormed) (h : (s, x) ∈ r.visited o e) : r.Leads o s x := by
  rw [visited_eq] at h
  cases hf : r.found? none o e with
  | none => rw [hf] at h; cases h
  | some found => rw [hf] at h; exact leads_of_mem_found? ho hf h

/-! ### One key at a time -/

theorem visitEach_look {α : Type} (f : α → Bool) (xs : List α) :
    visitEach (m := Id) (fun x _ => if f x then .done true else .yield false) xs false =
      if xs.any f then .done true else .yield false := by
  induction xs with
  | nil => rfl
  | cons x xs ih =>
    rw [visitEach_cons, List.any_cons]
    cases f x with
    | true => rfl
    | false => exact ih

theorem reaches_expand (r : Registry) (o : Object) (e : Expansion) (rest : Path) :
    r.reaches o (.expand e :: rest) = (r.visited o e).any fun x => r.reaches x.2 rest := by
  simp only [reaches, reachesFrom, Found.object]
  rw [visit_eq, visited_eq]
  cases r.found? none o e with
  | none => rfl
  | some found =>
    rw [Option.map_some, visitEach_look fun x : Path × Object => r.reachesFrom rest (.stored x.2), Option.getD_some]
    cases found.any fun x => r.reachesFrom rest (.stored x.2) <;> rfl

theorem reaches_expand_iff :
    r.reaches o (.expand e :: rest) = true ↔ ∃ x ∈ r.visited o e, r.reaches x.2 rest = true := by
  rw [reaches_expand, List.any_eq_true]

theorem reaches_key (hk : k.isExpansion = false) (o : Object) (rest : Path) :
    r.reaches o (k :: rest) = ((r.next? o k).map (r.reaches · rest)).getD false := by
  rw [← List.singleton_append, reaches_append r o (List.forall_mem_singleton.2 hk), at?_singleton]

theorem reaches_key_iff (hk : k.isExpansion = false) :
    r.reaches o (k :: rest) = true ↔ ∃ x, r.at? o [k] = some x ∧ r.reaches x rest = true := by
  rw [reaches_key hk, at?_singleton]
  cases r.next? o k <;> simp

/-! ### Concretions -/

theorem Concretion.append (h : r.Concretion o keys p) (hx : r.at? o p = some x) (h' : r.Concretion x rest q) :
    r.Concretion o (keys ++ rest) (p ++ q) := by
  induction h' with
  | nil => rwa [List.append_nil, List.append_nil]
  | keep _ hk ih =>
    rw [← List.append_assoc, ← List.append_assoc]
    exact ih.keep hk
  | @replace _ q _ _ z _ _ hz hy ih =>
    have hat : r.at? o (p ++ q) = some z := by rw [at?_append, hx, Option.bind_some, hz]
    rw [← List.append_assoc, ← List.append_assoc]
    exact ih.replace hat hy

/-- A path leads on from wherever a concretion of its first part leads to. -/
theorem Concretion.reaches (h : r.Concretion o keys p) (ho : o.WellFormed) (hx : r.at? o p = some x)
    (hrest : r.reaches x rest = true) : r.reaches o (keys ++ rest) = true := by
  induction h generalizing x rest with
  | nil =>
    cases hx
    exact hrest
  | keep _ hk ih =>
    rw [at?_append] at hx
    obtain ⟨z, hz, hx⟩ := Option.bind_eq_some_iff.1 hx
    rw [List.append_assoc]
    exact ih hz ((reaches_key_iff hk).2 ⟨x, hx, hrest⟩)
  | replace _ hz hy ih =>
    rw [at?_append, hz, Option.bind_some, (leads_of_mem_visited (wellFormed_at? ho hz) hy).at_eq] at hx
    cases hx
    rw [List.append_assoc]
    exact ih hz (reaches_expand_iff.2 ⟨_, hy, hrest⟩)

theorem exists_concretion (ho : o.WellFormed) (h : r.reaches o keys = true) :
    ∃ p x, r.Concretion o keys p ∧ r.at? o p = some x := by
  induction keys generalizing o with
  | nil => exact ⟨[], o, .nil, rfl⟩
  | cons k keys ih =>
    -- the first key leads to an object from which the rest leads on
    have hfirst : ∃ s x, r.Concretion o ([] ++ [k]) s ∧ r.at? o s = some x ∧ r.reaches x keys = true := by
      by_cases hk : k.isExpansion = true
      · cases k with
        | expand e =>
          obtain ⟨⟨s, x⟩, hx, hkeys⟩ := reaches_expand_iff.1 h
          exact ⟨s, x, .replace .nil rfl hx, (leads_of_mem_visited ho hx).at_eq, hkeys⟩
        | name | index | property => cases hk
      · rw [Bool.not_eq_true] at hk
        obtain ⟨x, hx, hkeys⟩ := (reaches_key_iff hk).1 h
        exact ⟨[k], x, .keep .nil hk, hx, hkeys⟩
    obtain ⟨s, x, hs, hx, hkeys⟩ := hfirst
    obtain ⟨q, y, hq, hy⟩ := ih (wellFormed_at? ho hx) hkeys
    exact ⟨s ++ q, y, hs.append hx hq, by rw [at?_append, hx, Option.bind_some, hy]⟩

/-- A path leads somewhere, through one element at least of each expansion, if and only if one of
its concretions resolves. -/
theorem reaches_iff_exists_concretion (r : Registry) (o : Object) (keys : Path) (ho : o.WellFormed) :
    r.reaches o keys = true ↔
      ∃ p : Path, r.Concretion o keys p ∧ p.Concrete ∧ (r.find? o p).isSome = true := by
  constructor
  · intro h
    obtain ⟨p, x, hp, hx⟩ := exists_concretion ho h
    exact ⟨p, hp, concrete_of_at? hx, by rw [← isSome_at?, hx]; rfl⟩
  · rintro ⟨p, hp, -, hfind⟩
    rw [← isSome_at?] at hfind
    obtain ⟨x, hx⟩ := Option.isSome_iff_exists.1 hfind
    rw [← List.append_nil keys]
    exact hp.reaches ho hx (by rw [reaches, reachesFrom])

theorem reaches_iff_exists_concretion_tags :
    let shop : Object := .json (.object [("items", .list [.object [], .object [("tags", .list [.str "new"])]])])
    let keys : Path := [.name "items", .expand (.each .any), .name "tags", .expand (.variadic .any .size),
      .property .length]
    shop.WellFormed ∧ Registry.standard.reaches shop keys = true ∧
      ∃ p : Path, Registry.standard.Concretion shop keys p ∧ p.Concrete ∧
        (Registry.standard.find? shop p).isSome = true := by
  intro shop keys
  have hwell : shop.WellFormed := by decide
  have hreaches : Registry.standard.reaches shop keys = true := by decide
  exact ⟨hwell, hreaches, (reaches_iff_exists_concretion .standard shop keys hwell).1 hreaches⟩

end Registry

end Conform
