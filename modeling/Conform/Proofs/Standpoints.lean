import Conform.Proofs.Direct
import Conform.Proofs.Strictness

/-!
# Where a pass stands when it asks

Every part of a plan is about a place. What is known of a cursor and a place, and is kept on the way to a
child and to the elements of a container, is known of every part that a pass comes to
(`Rule.keeps_plan`). So a pass over the whole object asks each leaf from a cursor that tracks its member
(`Validator.tracks_of_reaches`), and no pass has gone past the place of a part
(`Validator.above_of_reaches`).
-/

namespace Conform

/-- The place that a part of a plan is about. -/
def Plan.place? : Plan → Option Path
  | ask (.check _ k) => some k.member.path
  | ask (.presence m p? _) => some (m.path ++ (p?.map Key.property).toList)
  | connect .. => none
  | within b _ => some b.member.path
  | forEach container _ _ => some container.path

theorem Plan.place?_compare (scope : Member) (p? : Option Property) (op : Operator) (operand : Operand) :
    (ask (.compare scope p? op operand)).place? = some scope.path := by
  rw [← Leaf.path_member_compare scope p? op operand]
  cases h : Leaf.compare scope p? op operand with
  | check => rfl
  | presence =>
    have hcheck := Leaf.isCheck_compare scope p? op operand
    rw [h] at hcheck
    cases hcheck

/-- What is known of a cursor and a place goes on with a pass. -/
structure Chain.Keeps (c : Chain) (I : Cursor → Path → Prop) : Prop where
  enter : ∀ {cur entry : Cursor} {b : Branch}, c.enters? cur b = some entry → I cur b.member.path → I entry b.member.path
  extend : ∀ {cur : Cursor} {p : Path} {k : Key}, k.isExpansion = false → I cur p → I cur (p ++ [k])
  element : ∀ {cur : Cursor} {container : Member} {e : Expansion} {found : List (Path × Object)} {x : Path × Object},
    cur.found? c.terms container.path e = some found → x ∈ found → I cur container.path →
      I (cur.atElement container x) (container.path ++ x.1)

namespace Plan
variable {c : Chain} {I : Cursor → Path → Prop} {body : Member → Plan}

/-- Wherever the pass comes to inside the plan, it is known of the cursor and the place there. -/
def Known (c : Chain) (I : Cursor → Path → Prop) (p : Plan) (cur : Cursor) : Prop :=
  ∀ q cur', p.Reaches c cur q cur' → ∀ place ∈ q.place?, I cur' place

theorem known_ask {l : Leaf} {cur : Cursor} (h : ∀ place ∈ (ask l).place?, I cur place) : (ask l).Known c I cur := by
  intro q cur' hq
  cases hq
  exact h

theorem known_connect {k : Connective} {plans : List Plan} {cur : Cursor} (h : ∀ p ∈ plans, p.Known c I cur) :
    (connect k plans).Known c I cur := by
  intro q cur' hq
  cases hq with
  | refl => exact nofun
  | connect hp hq => exact h _ (mem_of_mem_upTo hp) _ _ hq

variable (hI : c.Keeps I)
include hI

theorem known_within {b : Branch} {p : Plan} {cur : Cursor} (hcur : I cur b.member.path)
    (hp : ∀ entry, I entry b.member.path → p.Known c I entry) : (within b p).Known c I cur := by
  intro q cur' hq
  cases hq with
  | refl =>
    intro place hplace
    cases hplace
    exact hcur
  | within hentry hq => exact hp _ (hI.enter hentry hcur) _ _ hq

theorem known_forEach {e : Expansion} (hbody : ∀ cur scope, I cur scope.path → (body scope).Known c I cur)
    {cur : Cursor} {container : Member} (hcur : I cur container.path) : (forEach container e body).Known c I cur := by
  intro q cur' hq
  cases hq with
  | refl =>
    intro place hplace
    cases hplace
    exact hcur
  | forEach hentry hfound hx hq =>
    exact hbody _ _ (hI.element hfound (mem_of_mem_upTo hx) (hI.enter hentry hcur)) _ _ hq

theorem known_along (hbody : ∀ cur scope, I cur scope.path → (body scope).Known c I cur) (path : Path)
    {cur : Cursor} {scope : Member} (hcur : I cur scope.path) : (along body path scope).Known c I cur := by
  refine along_ind (motive := fun body => ∀ cur scope, I cur scope.path → (body scope).Known c I cur) hbody ?_ ?_
    cur scope hcur
  · exact fun e _ body hbody cur container hcur => known_forEach hI hbody hcur
  · exact fun k hk body hbody cur scope hcur =>
      hbody cur (scope.extend [k]) (hI.extend (hk k (List.mem_singleton_self _)) hcur)

end Plan

namespace Rule
variable {c : Chain} {I : Cursor → Path → Prop}

mutual

theorem keeps_plan (hI : c.Keeps I) : ∀ (r : Rule) {cur : Cursor} {scope : Member}, I cur scope.path →
    (r.plan scope).Known c I cur
  | condition op operand, cur, scope, hcur => by
    refine Plan.known_ask fun place hplace => ?_
    rw [Plan.place?_compare] at hplace
    cases hplace
    exact hcur
  | property p op operand, cur, scope, hcur => by
    refine Plan.known_ask fun place hplace => ?_
    rw [Plan.place?_compare] at hplace
    cases hplace
    exact hcur
  | presence expected, cur, scope, hcur => by
    refine Plan.known_ask fun place hplace => ?_
    cases hplace
    rwa [scope.splitProperty_join]
  | bind m body, cur, scope, hcur => by
    have hnamed : I cur (scope.adoptNames m).path := hcur
    exact Plan.known_along hI (fun cur scope hcur => keeps_plan hI body hcur) m.path hnamed
  | group k rules, cur, scope, hcur =>
    Plan.known_within hI hcur fun entry hentry => Plan.known_connect (keeps_plans hI rules hentry)
  | elements e rules, cur, scope, hcur =>
    Plan.known_forEach hI (fun cur scope hcur => Plan.known_connect (keeps_plans hI rules hcur)) hcur
  | explain message body, cur, scope, hcur => by
    refine Plan.known_within hI hcur fun entry hentry => ?_
    have hscope : I entry scope.path := hentry
    exact keeps_plan hI body hscope

theorem keeps_plans (hI : c.Keeps I) : ∀ (rs : List Rule) {cur : Cursor} {scope : Member}, I cur scope.path →
    ∀ p ∈ plans rs scope, p.Known c I cur
  | [], _, _, _, _, hp => absurd hp List.not_mem_nil
  | r :: rs, _, _, hcur, p, hp => by
    rcases List.mem_cons.1 hp with rfl | hp
    · exact keeps_plan hI r hcur
    · exact keeps_plans hI rs hcur p hp

end

end Rule

/-! ### Cursors of a validator -/

theorem Path.length_le_of_covers {pattern p : Path} (h : covers pattern p = true) : pattern.length ≤ p.length := by
  induction pattern generalizing p with
  | nil => exact Nat.zero_le _
  | cons k pattern ih =>
    cases p with
    | nil => cases h
    | cons l p =>
      rw [covers, Bool.and_eq_true] at h
      exact Nat.succ_le_succ (ih h.2)

theorem Cursor.Above.start (o : Object) : (Cursor.start o).Above [] :=
  ⟨fun _ hk => absurd hk List.not_mem_nil, Nat.le_refl _, rfl⟩

theorem Cursor.Above.enter {cand : Candidate} {cur : Cursor} {p : Path} (h : cur.Above p) (hp : cand.holds p = true) :
    (cand.enter cur).Above p := by
  rw [Candidate.enter]
  split
  · exact ⟨h.concrete, Path.length_le_of_covers hp, h.operands⟩
  · exact h

namespace Chain
variable {c : Chain} {layers : List Layer} {cur entry : Cursor} {b : Branch}

theorem entry_of_entersThrough (J : Cursor → Prop) (h : c.entersThrough layers cur b = some entry)
    (hmove : ∀ cand cur, .candidate cand ∈ layers → cand.holds b.member.path = true → J cur → J (cand.enter cur))
    (hcur : J cur) : J entry := by
  induction layers generalizing cur with
  | nil => cases h; exact hcur
  | cons layer rest ih =>
    have hrest := fun cand cur hmem => hmove cand cur (List.mem_cons_of_mem layer hmem)
    cases layer with
    | recorder | handler | single | reporting => exact ih h hrest hcur
    | candidate cand =>
      cases b with
      | group | explained => exact ih h hrest hcur
      | elements q container =>
        refine ih h hrest ?_
        split
        next hholds => exact hmove cand cur (List.mem_cons_self ..) hholds hcur
        · exact hcur
    | guard abort =>
      rcases abort with _ | _
      · exact ih h hrest hcur
      · rcases b with ⟨k, scope, rules⟩ | _ | _
        · cases k with
          | and | or => exact ih h hrest hcur
          | not =>
            rw [entersThrough] at h
            split at h
            · cases h
            · exact ih h hrest hcur
        · exact ih h hrest hcur
        · exact ih h hrest hcur

end Chain

def Filter.isCandidate : Filter → Bool
  | candidate .. => true
  | everything | member _ => false

namespace Validator
variable {v : Validator} {o : Object} {f : Filter} {q : Plan} {cur : Cursor} {p : Path}

theorem keeps_above (v : Validator) (f : Filter) : (v.chain f).Keeps Cursor.Above where
  enter {_ _ b} h hcur :=
    Chain.entry_of_entersThrough (·.Above b.member.path) h (fun _ _ _ hholds hcur => Cursor.Above.enter hcur hholds) hcur
  extend hk h := h.append (List.forall_mem_singleton.2 hk)
  element {cur container e found x} hfound hx h := by
    have hmem : x ∈ (cur.found? (v.chain f).terms container.path e).getD [] := by rwa [hfound]
    exact h.element (Cursor.literal_of_mem_found? hmem).concrete none

theorem not_mem_layers {cand : Candidate} (hf : f.isCandidate = false) :
    Layer.candidate cand ∉ (v.chain f).layers := by
  rw [layers_chain]
  cases f with
  | candidate => cases hf
  | everything | member => cases v.terms.settings.existence <;> simp [Filter.layers, Layer.ofExistence?]

theorem keeps_tracks (v : Validator) (hf : f.isCandidate = false) (ho : o.WellFormed) :
    (v.chain f).Keeps fun cur p => cur.Tracks v.terms.registry o p where
  enter {_ _ b} h hcur :=
    Chain.entry_of_entersThrough (·.Tracks v.terms.registry o b.member.path) h
      (fun _ _ hmem => absurd hmem (not_mem_layers hf)) hcur
  extend hk h := h.extend hk
  element hfound hx h := by
    rw [Cursor.found?] at hfound
    obtain ⟨y, hy, hfound⟩ := Option.bind_eq_some_iff.1 hfound
    have hat := h.sees.symm.trans hy
    exact h.atElement hat (Registry.leads_of_mem_found? (Registry.wellFormed_at? ho hat) hfound hx)

/-- A pass never has gone past the place of what it comes to. -/
theorem above_of_reaches (h : (v.rule.plan .root).Reaches (v.chain f) (.start o) q cur) (hp : q.place? = some p) :
    cur.Above p := by
  have hstart : (Cursor.start o).Above Member.root.path := .start o
  exact Rule.keeps_plan (v.keeps_above f) v.rule hstart _ _ h p hp

/-- A pass in which there is no candidate reads the validated object at the place of what it comes to. -/
theorem tracks_of_reaches (hf : f.isCandidate = false) (ho : o.WellFormed)
    (h : (v.rule.plan .root).Reaches (v.chain f) (.start o) q cur) (hp : q.place? = some p) :
    cur.Tracks v.terms.registry o p := by
  have hstart : (Cursor.start o).Tracks v.terms.registry o Member.root.path := .start _ o
  exact Rule.keeps_plan (v.keeps_tracks hf ho) v.rule hstart _ _ h p hp

end Validator

end Conform
