import Conform.Operator
import Mathlib.Data.List.Infix

/-!
# Matching without regard to case

A relation that ignores case compares the lower cases of two whole texts. Each character of a part has the
same lower case in every text, except a capital sigma: it gets the form that stands at the end of a word
where a word ends, and a word may end with the part but not in the text, or the other way round
(`Text.Shifts`). That is the only way in which a text that begins or ends with another can be told not to do
so if case is ignored, and it always is one (`Operator.accepts_ignoring_case`).
-/

namespace Conform

namespace Text

/-! ### Lower case in context -/

/-- The lower case of `part` where `before` (nearest first) and `after` surround it. -/
def lowerIn (before : List Char) : List Char → List Char → List Char
  | [], _ => []
  | c :: cs, after => lowerAt before c (cs ++ after) ++ lowerIn (c :: before) cs after

theorem lowerFrom_eq (before part : List Char) : lowerFrom before part = lowerIn before part [] := by
  induction part generalizing before with
  | nil => rfl
  | cons c cs ih => rw [lowerFrom, lowerIn, ih, List.append_nil]

theorem lowerFrom_append (before p q : List Char) :
    lowerFrom before (p ++ q) = lowerIn before p q ++ lowerFrom (p.reverse ++ before) q := by
  induction p generalizing before with
  | nil => rfl
  | cons c cs ih =>
    rw [List.cons_append, lowerFrom, ih, lowerIn, List.append_assoc, List.reverse_cons, List.append_assoc,
      List.singleton_append]

theorem length_lowerAt (before before' after after' : List Char) (c : Char) :
    (lowerAt before c after).length = (lowerAt before' c after').length := by
  rw [lowerAt, lowerAt]
  split
  · rfl
  · split <;> rfl

theorem length_lowerIn (before before' part after after' : List Char) :
    (lowerIn before part after).length = (lowerIn before' part after').length := by
  induction part generalizing before before' with
  | nil => rfl
  | cons c cs ih =>
    rw [lowerIn, lowerIn, List.length_append, List.length_append, ih (c :: before) (c :: before'),
      length_lowerAt before before' (cs ++ after) (cs ++ after')]

/-- Only a capital sigma depends on what surrounds it. -/
theorem lowerAt_eq_iff {before before' after after' : List Char} {c : Char} :
    lowerAt before c after = lowerAt before' c after' ↔
      (c = 'Σ' → endsWord before after = endsWord before' after') := by
  by_cases hc : c = 'Σ'
  · subst hc
    rw [lowerAt, lowerAt, if_pos rfl, if_pos rfl]
    cases endsWord before after <;> cases endsWord before' after' <;> decide
  · rw [lowerAt, lowerAt, if_neg hc, if_neg hc]
    exact iff_of_true rfl fun h => absurd h hc

theorem lowerIn_eq_iff {before before' part after after' : List Char} :
    lowerIn before part after = lowerIn before' part after' ↔
      ∀ u v, part = u ++ 'Σ' :: v →
        endsWord (u.reverse ++ before) (v ++ after) = endsWord (u.reverse ++ before') (v ++ after') := by
  induction part generalizing before before' with
  | nil => exact iff_of_true rfl fun u v h => absurd h.symm (List.append_ne_nil_of_right_ne_nil u (List.cons_ne_nil _ _))
  | cons c cs ih =>
    have hsplit : lowerIn before (c :: cs) after = lowerIn before' (c :: cs) after' ↔
        lowerAt before c (cs ++ after) = lowerAt before' c (cs ++ after') ∧
          lowerIn (c :: before) cs after = lowerIn (c :: before') cs after' :=
      ⟨fun h => List.append_inj h (length_lowerAt ..), fun h => congrArg₂ (· ++ ·) h.1 h.2⟩
    rw [hsplit, lowerAt_eq_iff, ih]
    constructor
    · rintro ⟨hhere, hthere⟩ u v h
      cases u with
      | nil =>
        obtain ⟨rfl, rfl⟩ := List.cons.inj h
        exact hhere rfl
      | cons d u =>
        obtain ⟨rfl, rfl⟩ := List.cons.inj h
        simpa using hthere u v rfl
    · intro h
      refine ⟨fun hc => ?_, fun u v hcs => ?_⟩
      · simpa using h [] cs (by rw [hc]; rfl)
      · simpa using h (c :: u) v (by rw [hcs]; rfl)

/-- A capital sigma in `part` ends a word by itself but not where `before` (nearest first) and `after`
surround the part, or the other way round. -/
def Shifts (before part after : List Char) : Prop :=
  ∃ u v, part = u ++ 'Σ' :: v ∧ endsWord (u.reverse ++ before) (v ++ after) ≠ endsWord u.reverse v

variable {before part after : List Char}

theorem not_shifts_iff : ¬ Shifts before part after ↔ lowerIn before part after = lowerFrom [] part := by
  rw [lowerFrom_eq, lowerIn_eq_iff, Shifts]
  simp only [List.append_nil, not_exists, not_and, not_not]

theorem not_shifts_of_not_mem (h : 'Σ' ∉ part) : ¬ Shifts before part after := by
  rintro ⟨u, v, rfl, -⟩
  exact h (List.mem_append_right u (List.mem_cons_self ..))

theorem toList_lowercase (s : String) : (lowercase s).toList = lowerFrom [] s.toList :=
  String.toList_ofList

end Text

/-! ### Relations of texts -/

theorem occursIn_iff {part whole : List Char} : occursIn part whole = true ↔ part <:+: whole := by
  induction whole with
  | nil => rw [occursIn, List.isEmpty_iff, List.infix_nil]
  | cons c cs ih => rw [occursIn, Bool.or_eq_true, List.isPrefixOf_iff_prefix, ih, List.infix_cons_iff]

namespace Operator

open Text

/-- The relation holds of two texts, with regard to case or without. -/
def Accepts (r : TextRelation) (ignoreCase : Bool) (a b : String) : Prop :=
  (text r ignoreCase).apply (.str a) (.str b) = some true

instance (r : TextRelation) (ignoreCase : Bool) (a b : String) : Decidable (Accepts r ignoreCase a b) :=
  inferInstanceAs (Decidable (_ = _))

variable {ignoreCase : Bool} {a b : String} {front rest : List Char}

theorem accepts_iff {r : TextRelation} :
    Accepts r ignoreCase a b ↔ r.holds (fold ignoreCase a) (fold ignoreCase b) = true :=
  Option.some_inj

theorem accepts_eq_iff : Accepts .eq ignoreCase a b ↔ fold ignoreCase a = fold ignoreCase b :=
  accepts_iff.trans beq_iff_eq

theorem accepts_startsWith_iff :
    Accepts .startsWith ignoreCase a b ↔ (fold ignoreCase b).toList <+: (fold ignoreCase a).toList :=
  accepts_iff.trans List.isPrefixOf_iff_prefix

theorem accepts_endsWith_iff :
    Accepts .endsWith ignoreCase a b ↔ (fold ignoreCase b).toList <:+ (fold ignoreCase a).toList :=
  accepts_iff.trans List.isSuffixOf_iff_suffix

theorem accepts_contains_iff :
    Accepts .contains ignoreCase a b ↔ (fold ignoreCase b).toList <:+: (fold ignoreCase a).toList :=
  accepts_iff.trans occursIn_iff

/-! ### Parts of a text -/

theorem toList_fold_split (h : a.toList = front ++ b.toList ++ rest) :
    (fold true a).toList = lowerIn [] front (b.toList ++ rest) ++ lowerIn front.reverse b.toList rest ++
      lowerFrom (b.toList.reverse ++ front.reverse) rest := by
  have hfold : (fold true a).toList = lowerFrom [] a.toList := toList_lowercase a
  rw [hfold, h, List.append_assoc, lowerFrom_append, lowerFrom_append, List.append_nil, List.append_assoc]

theorem toList_fold (b : String) : (fold true b).toList = lowerFrom [] b.toList :=
  toList_lowercase b

theorem length_fold (b : String) (before after : List Char) :
    (fold true b).toList.length = (lowerIn before b.toList after).length := by
  rw [toList_fold, lowerFrom_eq]
  exact length_lowerIn ..

/-- A text begins with one of its beginnings, if case is ignored, exactly if no sigma gets another form. -/
theorem startsWith_ignoring_case (h : a.toList = b.toList ++ rest) :
    Accepts .startsWith true a b ↔ ¬ Shifts [] b.toList rest := by
  have hwhole : a.toList = [] ++ b.toList ++ rest := h
  have hsplit := toList_fold_split hwhole
  rw [lowerIn, List.nil_append, List.reverse_nil] at hsplit
  rw [accepts_startsWith_iff, hsplit, not_shifts_iff, ← toList_fold]
  constructor
  · intro hprefix
    have hle := List.prefix_of_prefix_length_le hprefix (List.prefix_append ..) (length_fold b [] rest).le
    exact (hle.eq_of_length (length_fold b [] rest)).symm
  · rintro heq
    rw [heq]
    exact List.prefix_append ..

theorem endsWith_ignoring_case (h : a.toList = front ++ b.toList) :
    Accepts .endsWith true a b ↔ ¬ Shifts front.reverse b.toList [] := by
  have hwhole : a.toList = front ++ b.toList ++ [] := h.trans (List.append_nil _).symm
  have hsplit := toList_fold_split hwhole
  rw [lowerFrom, List.append_nil, List.append_nil] at hsplit
  rw [accepts_endsWith_iff, hsplit, not_shifts_iff, ← toList_fold]
  constructor
  · intro hsuffix
    have hle := List.suffix_of_suffix_length_le hsuffix (List.suffix_append ..) (length_fold b front.reverse []).le
    exact (hle.eq_of_length (length_fold b front.reverse [])).symm
  · rintro heq
    rw [heq]
    exact List.suffix_append ..

theorem contains_ignoring_case (h : a.toList = front ++ b.toList ++ rest)
    (hshifts : ¬ Shifts front.reverse b.toList rest) : Accepts .contains true a b := by
  rw [accepts_contains_iff, toList_fold_split h, not_shifts_iff.1 hshifts, ← toList_fold]
  exact List.infix_append ..

theorem eq_ignoring_case (h : Accepts .eq false a b) : Accepts .eq true a b :=
  accepts_eq_iff.2 (congrArg (fold true) (accepts_eq_iff.1 h))

/-- What holds with regard to case holds without: equality always, and for a beginning, an end and a part of a
text whenever no sigma in it gets another form, for a beginning and an end exactly then. So it holds for all
texts without a capital sigma. -/
theorem accepts_ignoring_case (a b : String) :
    (Accepts .eq false a b → Accepts .eq true a b) ∧
    ((Accepts .startsWith false a b ↔ ∃ rest, a.toList = b.toList ++ rest) ∧
      ∀ rest, a.toList = b.toList ++ rest → (Accepts .startsWith true a b ↔ ¬ Shifts [] b.toList rest)) ∧
    ((Accepts .endsWith false a b ↔ ∃ front, a.toList = front ++ b.toList) ∧
      ∀ front, a.toList = front ++ b.toList → (Accepts .endsWith true a b ↔ ¬ Shifts front.reverse b.toList [])) ∧
    ((Accepts .contains false a b ↔ ∃ front rest, a.toList = front ++ b.toList ++ rest) ∧
      ∀ front rest, a.toList = front ++ b.toList ++ rest → ¬ Shifts front.reverse b.toList rest →
        Accepts .contains true a b) ∧
    ('Σ' ∉ b.toList → ∀ r ∈ [TextRelation.eq, .startsWith, .endsWith, .contains], Accepts r false a b → Accepts r true a b) := by
  have hstarts : Accepts .startsWith false a b ↔ ∃ rest, a.toList = b.toList ++ rest :=
    accepts_startsWith_iff.trans (exists_congr fun _ => eq_comm)
  have hends : Accepts .endsWith false a b ↔ ∃ front, a.toList = front ++ b.toList :=
    accepts_endsWith_iff.trans (exists_congr fun _ => eq_comm)
  have hcontains : Accepts .contains false a b ↔ ∃ front rest, a.toList = front ++ b.toList ++ rest :=
    accepts_contains_iff.trans (exists_congr fun _ => exists_congr fun _ => eq_comm)
  refine ⟨eq_ignoring_case, ⟨hstarts, fun _ => startsWith_ignoring_case⟩, ⟨hends, fun _ => endsWith_ignoring_case⟩,
    ⟨hcontains, fun _ _ => contains_ignoring_case⟩, fun hsigma r hr h => ?_⟩
  simp only [List.mem_cons, List.not_mem_nil, or_false] at hr
  rcases hr with rfl | rfl | rfl | rfl
  · exact eq_ignoring_case h
  · obtain ⟨rest, hrest⟩ := hstarts.1 h
    exact (startsWith_ignoring_case hrest).2 (not_shifts_of_not_mem hsigma)
  · obtain ⟨front, hfront⟩ := hends.1 h
    exact (endsWith_ignoring_case hfront).2 (not_shifts_of_not_mem hsigma)
  · obtain ⟨front, rest, hsplit⟩ := hcontains.1 h
    exact contains_ignoring_case hsplit (not_shifts_of_not_mem hsigma)

/-- The name begins with its first four letters, the last of which ends a word only without the rest. Its end
and a part in the middle are found, whatever sigmas they have. -/
theorem accepts_ignoring_case_odysseus :
    ("ΟΔΥΣΣΕΥΣ".toList = "ΟΔΥΣ".toList ++ "ΣΕΥΣ".toList ∧ Shifts [] "ΟΔΥΣ".toList "ΣΕΥΣ".toList ∧
      "ΟΔΥΣΣΕΥΣ".toList = "ΟΔΥΣ".toList ++ "ΣΕΥΣ".toList ∧ ¬ Shifts "ΟΔΥΣ".toList.reverse "ΣΕΥΣ".toList [] ∧
      "ΟΔΥΣΣΕΥΣ".toList = "ΟΔΥΣ".toList ++ "ΣΕ".toList ++ "ΥΣ".toList ∧
      ¬ Shifts "ΟΔΥΣ".toList.reverse "ΣΕ".toList "ΥΣ".toList ∧ 'Σ' ∉ "ΟΔΥ".toList) ∧
    ¬ Accepts .startsWith true "ΟΔΥΣΣΕΥΣ" "ΟΔΥΣ" ∧ Accepts .endsWith true "ΟΔΥΣΣΕΥΣ" "ΣΕΥΣ" ∧
      Accepts .contains true "ΟΔΥΣΣΕΥΣ" "ΣΕ" ∧ Accepts .startsWith true "ΟΔΥΣΣΕΥΣ" "ΟΔΥ" := by
  have hsplit : "ΟΔΥΣΣΕΥΣ".toList = "ΟΔΥΣ".toList ++ "ΣΕΥΣ".toList := by decide +kernel
  have hsplit' : "ΟΔΥΣΣΕΥΣ".toList = "ΟΔΥΣ".toList ++ "ΣΕ".toList ++ "ΥΣ".toList := by decide +kernel
  have hfirst : Shifts [] "ΟΔΥΣ".toList "ΣΕΥΣ".toList :=
    ⟨"ΟΔΥ".toList, [], by decide +kernel, by decide +kernel⟩
  have hlast : ¬ Shifts "ΟΔΥΣ".toList.reverse "ΣΕΥΣ".toList [] := not_shifts_iff.2 (by decide +kernel)
  have hinner : ¬ Shifts "ΟΔΥΣ".toList.reverse "ΣΕ".toList "ΥΣ".toList := not_shifts_iff.2 (by decide +kernel)
  have hnone : 'Σ' ∉ "ΟΔΥ".toList := by decide +kernel
  obtain ⟨-, ⟨-, hstarts⟩, -⟩ := accepts_ignoring_case "ΟΔΥΣΣΕΥΣ" "ΟΔΥΣ"
  obtain ⟨-, -, ⟨-, hends⟩, -⟩ := accepts_ignoring_case "ΟΔΥΣΣΕΥΣ" "ΣΕΥΣ"
  obtain ⟨-, -, -, ⟨-, hcontains⟩, -⟩ := accepts_ignoring_case "ΟΔΥΣΣΕΥΣ" "ΣΕ"
  obtain ⟨-, -, -, -, hplain⟩ := accepts_ignoring_case "ΟΔΥΣΣΕΥΣ" "ΟΔΥ"
  exact ⟨⟨hsplit, hfirst, hsplit, hlast, hsplit', hinner, hnone⟩, fun h => (hstarts _ hsplit).1 h hfirst,
    (hends _ hsplit).2 hlast, hcontains _ _ hsplit' hinner,
    hplain hnone .startsWith (by decide) (by decide +kernel)⟩

/-- A part of a text is not found if case is ignored, though it is if case counts: here the part ends with a
sigma that is inside a word of the text, or it is the sigma at the end of a word. -/
theorem refuses_ignoring_case :
    (Accepts .contains false "ΑΣΑ" "ΑΣ" ∧ ¬ Accepts .contains true "ΑΣΑ" "ΑΣ") ∧
    (Accepts .startsWith false "ΑΣΑ" "ΑΣ" ∧ ¬ Accepts .startsWith true "ΑΣΑ" "ΑΣ") ∧
    (Accepts .endsWith false "ΑΣ" "Σ" ∧ ¬ Accepts .endsWith true "ΑΣ" "Σ") := by
  decide +kernel

end Operator

end Conform
