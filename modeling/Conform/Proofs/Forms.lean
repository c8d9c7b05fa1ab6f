import Conform.Language.Phrase
import Mathlib.Data.List.Induction

/-!
# The form that is chosen

A form fits a context that has all categories it needs. Of the forms that fit, the one that needs most is
chosen, and the first of these (`Form.foldl_prefer_eq_some_iff`). A table is looked at in the order in which
its forms were added, so that a lookup can be read off the insertions: which form it takes, that there is
none only where no form fits, and that other phrases and forms that do not fit make no difference
(`PhraseTable.lookup?_of_insertions`).
-/

namespace Conform

namespace Form

/-- The context has all categories that the form needs. -/
def Fits (context : Grammar) (f : Form) : Prop :=
  ∀ c, f.needs.has c = true → context.has c = true

theorem fits_iff {context : Grammar} {f : Form} : f.Fits context ↔ context.contains f.needs = true :=
  Grammar.contains_iff.symm

instance (context : Grammar) (f : Form) : Decidable (f.Fits context) :=
  decidable_of_iff _ fits_iff.symm

/-! ### The first that needs most -/

/-- The forms before it need less, and those behind it no more. -/
def Leads (forms : List Form) (f : Form) : Prop :=
  ∃ before after, forms = before ++ f :: after ∧
    (∀ g ∈ before, g.needs.count < f.needs.count) ∧ ∀ g ∈ after, g.needs.count ≤ f.needs.count

variable {forms : List Form} {f g : Form}

theorem Leads.count_le (h : Leads forms f) (hg : g ∈ forms) : g.needs.count ≤ f.needs.count := by
  obtain ⟨before, after, rfl, hbefore, hafter⟩ := h
  rcases List.mem_append.1 hg with hg | hg
  · exact Nat.le_of_lt (hbefore g hg)
  · rcases List.mem_cons.1 hg with rfl | hg
    · exact Nat.le_refl _
    · exact hafter g hg

/-- One more form takes the lead if it needs more. -/
theorem Leads.concat_of_lt (h : Leads forms f) (hlt : f.needs.count < g.needs.count) : Leads (forms ++ [g]) g :=
  ⟨forms, [], rfl, fun _ hf => Nat.lt_of_le_of_lt (h.count_le hf) hlt, fun _ hf => absurd hf List.not_mem_nil⟩

theorem Leads.concat_of_le (h : Leads forms f) (hle : g.needs.count ≤ f.needs.count) : Leads (forms ++ [g]) f := by
  obtain ⟨before, after, rfl, hbefore, hafter⟩ := h
  refine ⟨before, after ++ [g], List.append_assoc .., hbefore, fun k hk => ?_⟩
  rcases List.mem_append.1 hk with hk | hk
  · exact hafter k hk
  · exact List.mem_singleton.1 hk ▸ hle

theorem isSome_prefer (best? : Option Form) (f : Form) : (prefer best? f).isSome = true := by
  cases best? with
  | none => rfl
  | some best => rw [prefer]; split <;> rfl

theorem foldl_prefer_eq_none_iff : forms.foldl prefer none = none ↔ forms = [] := by
  refine ⟨fun h => ?_, fun h => h ▸ rfl⟩
  induction forms using List.reverseRecOn with
  | nil => rfl
  | append_singleton forms g =>
    rw [List.foldl_append, List.foldl_cons, List.foldl_nil] at h
    have hsome := isSome_prefer (forms.foldl prefer none) g
    rw [h] at hsome
    cases hsome

theorem leads_of_foldl_prefer (h : forms.foldl prefer none = some f) : Leads forms f := by
  -- the form that leads so far is compared with the next one
  induction forms using List.reverseRecOn generalizing f with
  | nil => cases h
  | append_singleton forms g ih =>
    rw [List.foldl_append, List.foldl_cons, List.foldl_nil] at h
    cases hbest : forms.foldl prefer none with
    | none =>
      rw [hbest] at h
      cases h
      rw [foldl_prefer_eq_none_iff.1 hbest]
      exact ⟨[], [], rfl, fun _ hg => absurd hg List.not_mem_nil, fun _ hg => absurd hg List.not_mem_nil⟩
    | some best =>
      rw [hbest, prefer] at h
      split at h
      next hlt =>
        cases h
        exact (ih hbest).concat_of_lt hlt
      next hle =>
        cases h
        exact (ih hbest).concat_of_le (Nat.not_lt.1 hle)

theorem foldl_prefer_of_le (h : ∀ g ∈ forms, g.needs.count ≤ f.needs.count) :
    forms.foldl prefer (some f) = some f := by
  induction forms with
  | nil => rfl
  | cons g forms ih =>
    obtain ⟨hg, hforms⟩ := List.forall_mem_cons.1 h
    rw [List.foldl_cons, prefer, if_neg (Nat.not_lt.2 hg)]
    exact ih hforms

theorem Leads.foldl_prefer (h : Leads forms f) : forms.foldl prefer none = some f := by
  obtain ⟨before, after, rfl, hbefore, hafter⟩ := h
  have hstep : prefer (before.foldl prefer none) f = some f := by
    cases hbest : before.foldl prefer none with
    | none => rfl
    | some best =>
      obtain ⟨front, back, rfl, -⟩ := leads_of_foldl_prefer hbest
      exact if_pos (hbefore best (List.mem_append_right _ (List.mem_cons_self ..)))
  rw [List.foldl_append, List.foldl_cons, hstep]
  exact foldl_prefer_of_le hafter

theorem foldl_prefer_eq_some_iff : forms.foldl prefer none = some f ↔ Leads forms f :=
  ⟨leads_of_foldl_prefer, Leads.foldl_prefer⟩

end Form

/-! ### Insertions -/

namespace PhraseTable

/-- The table that holds the forms of the given phrases, added in this order. -/
def ofInsertions (added : List (String × Form)) : PhraseTable :=
  added.foldl (fun t e => t.insert e.1 e.2) empty

variable {added : List (String × Form)} {phrase : String} {context : Grammar}

theorem forms_ofInsertions (added : List (String × Form)) (phrase : String) :
    (ofInsertions added).forms phrase = (added.filter fun e => e.1 = phrase).map (·.2) := by
  induction added using List.reverseRecOn with
  | nil => rfl
  | append_singleton added e ih =>
    have hstep : ofInsertions (added ++ [e]) = (ofInsertions added).insert e.1 e.2 := List.foldl_append ..
    rw [hstep, forms_insert, ih, List.filter_append, List.map_append]
    by_cases he : e.1 = phrase
    · simp [he]
    · simp [he, Ne.symm he]

/-- The insertions that a lookup looks at. -/
def eligible (phrase : String) (context : Grammar) (added : List (String × Form)) : List (String × Form) :=
  added.filter fun e => e.1 = phrase ∧ e.2.Fits context

theorem lookup?_ofInsertions (added : List (String × Form)) (phrase : String) (context : Grammar) :
    (ofInsertions added).lookup? phrase context =
      (((eligible phrase context added).map (·.2)).foldl Form.prefer none).map Form.phrase := by
  rw [lookup?, forms_ofInsertions, List.filter_map, List.filter_filter, eligible]
  congr 4
  funext e
  rw [Bool.decide_and, Bool.and_comm]
  exact congrArg (_ && ·) (Bool.eq_iff_iff.2 (by rw [decide_eq_true_iff]; exact Form.fits_iff.symm))

/-- The form was added for the phrase and fits the context; those for the phrase that fit and were added
before it need less, and those that were added later no more. -/
def Chosen (added : List (String × Form)) (phrase : String) (context : Grammar) (f : Form) : Prop :=
  ∃ before after, added = before ++ (phrase, f) :: after ∧ f.Fits context ∧
    (∀ g, (phrase, g) ∈ before → g.Fits context → g.needs.count < f.needs.count) ∧
    ∀ g, (phrase, g) ∈ after → g.Fits context → g.needs.count ≤ f.needs.count

theorem leads_eligible_iff {f : Form} :
    Form.Leads ((eligible phrase context added).map (·.2)) f ↔ Chosen added phrase context f := by
  have hmem : ∀ {es : List (String × Form)} {g : Form},
      g ∈ (eligible phrase context es).map (·.2) ↔ (phrase, g) ∈ es ∧ g.Fits context := by
    intro es g
    simp only [eligible, List.mem_map, List.mem_filter, decide_eq_true_eq]
    constructor
    · rintro ⟨⟨_, _⟩, ⟨hmem, rfl, hfits⟩, rfl⟩
      exact ⟨hmem, hfits⟩
    · rintro ⟨hmem, hfits⟩
      exact ⟨(phrase, g), ⟨hmem, rfl, hfits⟩, rfl⟩
  constructor
  · rintro ⟨front, back, hsplit, hbefore, hafter⟩
    obtain ⟨es, es', hes, rfl, hcons⟩ := List.map_eq_append_iff.1 hsplit
    obtain ⟨e, es'', rfl, rfl, rfl⟩ := List.map_eq_cons_iff.1 hcons
    obtain ⟨l₁, l₂, rfl, hl₁, hl₂⟩ := List.filter_eq_append_iff.1 hes
    obtain ⟨l₃, l₄, rfl, hl₃, he, hl₄⟩ := List.filter_eq_cons_iff.1 hl₂
    obtain ⟨rfl, hfits⟩ := of_decide_eq_true he
    refine ⟨l₁ ++ l₃, l₄, (List.append_assoc ..).symm, hfits, fun g hg hgfits => hbefore g ?_, fun g hg hgfits => hafter g ?_⟩
    · rcases List.mem_append.1 hg with hg | hg
      · rw [← hl₁]
        exact hmem.2 ⟨hg, hgfits⟩
      · exact absurd (decide_eq_true ⟨rfl, hgfits⟩) (hl₃ _ hg)
    · rw [← hl₄]
      exact hmem.2 ⟨hg, hgfits⟩
  · rintro ⟨before, after, rfl, hfits, hbefore, hafter⟩
    refine ⟨(eligible phrase context before).map (·.2), (eligible phrase context after).map (·.2), ?_,
      fun g hg => ?_, fun g hg => ?_⟩
    · have hf : eligible phrase context ((phrase, f) :: after) = (phrase, f) :: eligible phrase context after :=
        List.filter_cons_of_pos (decide_eq_true ⟨rfl, hfits⟩)
      rw [eligible, List.filter_append, ← eligible, ← eligible, hf, List.map_append]
      rfl
    · exact hbefore g (hmem.1 hg).1 (hmem.1 hg).2
    · exact hafter g (hmem.1 hg).1 (hmem.1 hg).2

/-- A lookup finds nothing exactly if no form that was added for the phrase fits. Otherwise it takes the form
that needs most of those that fit, and of several such the one that was added first. Forms of other phrases
and forms that do not fit make no difference, wherever they were added. -/
theorem lookup?_of_insertions (added : List (String × Form)) (phrase : String) (context : Grammar) :
    ((ofInsertions added).lookup? phrase context = none ↔ ∀ f, (phrase, f) ∈ added → ¬ f.Fits context) ∧
    (∀ p, (ofInsertions added).lookup? phrase context = some p ↔
      ∃ f, Chosen added phrase context f ∧ f.phrase = p) ∧
    ∀ others, eligible phrase context others = eligible phrase context added →
      (ofInsertions others).lookup? phrase context = (ofInsertions added).lookup? phrase context := by
  refine ⟨?_, fun p => ?_, fun others h => ?_⟩
  · rw [lookup?_ofInsertions, Option.map_eq_none_iff, Form.foldl_prefer_eq_none_iff, List.map_eq_nil_iff, eligible,
      List.filter_eq_nil_iff]
    simp only [decide_eq_true_eq, Prod.forall]
    constructor
    · exact fun h f hf hfits => h phrase f hf ⟨rfl, hfits⟩
    · rintro h _ f hf ⟨rfl, hfits⟩
      exact h f hf hfits
  · rw [lookup?_ofInsertions, Option.map_eq_some_iff]
    simp only [Form.foldl_prefer_eq_some_iff, leads_eligible_iff]
  · rw [lookup?_ofInsertions, lookup?_ofInsertions, h]

/-- Behind a feminine plural both forms that need two categories fit. The first one is taken, with or without
the form of another phrase in between and the masculine form, which does not fit. -/
theorem lookup?_of_insertions_valid :
    let both : Grammar := (Grammar.ofCategory .feminine).union (.ofCategory .plural)
    let plain : String × Form := ("must be valid", { text := "valid" })
    let valides : Form := { text := "valides", needs := both, grammar := .ofCategory .plural }
    let late : String × Form := ("must be valid", { text := "valables", needs := both })
    let added := [plain, ("size", { text := "taille" }), ("must be valid", valides),
      ("must be valid", { text := "valide", needs := .ofCategory .masculine }), late]
    let others := [plain, ("must be valid", valides), late]
    eligible "must be valid" both others = eligible "must be valid" both added ∧
    Chosen added "must be valid" both valides ∧
    (ofInsertions added).lookup? "must be valid" both = some valides.phrase ∧
    (ofInsertions others).lookup? "must be valid" both = (ofInsertions added).lookup? "must be valid" both ∧
    (ofInsertions added).lookup? "length" both = none := by
  intro both plain valides late added others
  obtain ⟨-, hsome, hothers⟩ := lookup?_of_insertions added "must be valid" both
  obtain ⟨hnone, -⟩ := lookup?_of_insertions added "length" both
  have heligible : eligible "must be valid" both others = eligible "must be valid" both added := by decide
  have hchosen : Chosen added "must be valid" both valides :=
    leads_eligible_iff.1 (Form.leads_of_foldl_prefer (by decide))
  have hother : ∀ e ∈ added, e.1 ≠ "length" := by decide
  exact ⟨heligible, hchosen, (hsome _).2 ⟨valides, hchosen, rfl⟩, hothers others heligible,
    hnone.2 fun f hf => absurd rfl (hother _ hf)⟩

end PhraseTable

end Conform
