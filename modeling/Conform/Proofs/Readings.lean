import Conform.Proofs.Outline

/-!
# How texts are read

A text is read as its phrases joined by AND, OR and NOT (`Reading`), and a reading is true or false
once leaves are answered. `Outline.ReadsTrue` says of a rule that what it leaves in a report reads as true
exactly if the rule has succeeded. Failures are reported everywhere and everything that applies below
a negation, which is just enough for rules around such rules to read that way as well
(`Outline.reads_both`, `Outline.reads_either`, `Outline.reads_not`); of any of several elements it is
so outside of negations only, where repeated texts can be dropped (`Outline.reads_any`).
-/

namespace Conform

/-! ### Readings -/

/-- Phrases joined to a text. -/
inductive Reading where
  /-- What a leaf asks for, or the opposite. -/
  | phrase (negated : Bool) (l : Leaf)
  | both (first : Reading) (rest : List Reading)
  | either (first : Reading) (rest : List Reading)
  | deny (part : Reading)

theorem exists_map_eq_of_subset {α β : Type} {f : α → β} {xs : List α} {ys : List β} (h : ys ⊆ xs.map f) :
    ∃ zs, zs ⊆ xs ∧ zs.map f = ys := by
  induction ys with
  | nil => exact ⟨[], List.nil_subset _, rfl⟩
  | cons y ys ih =>
    obtain ⟨hy, hys⟩ := List.cons_subset.1 h
    obtain ⟨z, hz, rfl⟩ := List.mem_map.1 hy
    obtain ⟨zs, hzs, rfl⟩ := ih hys
    exact ⟨z :: zs, List.cons_subset.2 ⟨hz, hzs⟩, rfl⟩

namespace Reading

/-- Texts with a word between them, in parentheses inside of another text. -/
def joined (word : String) (outermost : Bool) (texts : List String) : String :=
  let text := (" " ++ word ++ " ").intercalate texts
  if 1 < texts.length && !outermost then "(" ++ text ++ ")" else text

theorem joined_singleton (word : String) (outermost : Bool) (text : String) : joined word outermost [text] = text := by
  rw [joined, String.intercalate_singleton]
  rfl

mutual

def text (outermost : Bool) : Reading → String
  | phrase negated l => Locale.english.leafText negated l
  | both first rest => joined "AND" outermost (text false first :: texts rest)
  | either first rest => joined "OR" outermost (text false first :: texts rest)
  | deny part => "NOT " ++ text false part

def texts : List Reading → List String
  | [] => []
  | q :: qs => text false q :: texts qs

end

mutual

/-- Whether it is true where leaves are answered like that. -/
def holds (answer : Leaf → Status) : Reading → Bool
  | phrase negated l => (answer l).isSuccess != negated
  | both first rest => holds answer first && (values answer rest).all id
  | either first rest => holds answer first || (values answer rest).any id
  | deny part => !holds answer part

def values (answer : Leaf → Status) : List Reading → List Bool
  | [] => []
  | q :: qs => holds answer q :: values answer qs

end

mutual

def leaves : Reading → List Leaf
  | phrase _ l => [l]
  | both first rest | either first rest => leaves first ++ leavesOf rest
  | deny part => leaves part

def leavesOf : List Reading → List Leaf
  | [] => []
  | q :: qs => leaves q ++ leavesOf qs

end

def isPhrase : Reading → Bool
  | phrase .. => true
  | _ => false

variable {answer : Leaf → Status} {qs : List Reading} {q : Reading}

theorem texts_eq_map (qs : List Reading) : texts qs = qs.map (text false) := by
  induction qs with
  | nil => rfl
  | cons q qs ih => rw [texts, ih, List.map_cons]

theorem values_eq_map (qs : List Reading) : values answer qs = qs.map (holds answer) := by
  induction qs with
  | nil => rfl
  | cons q qs ih => rw [values, ih, List.map_cons]

theorem mem_leavesOf {l : Leaf} : l ∈ leavesOf qs ↔ ∃ q ∈ qs, l ∈ q.leaves := by
  induction qs with
  | nil => simp [leavesOf]
  | cons q qs ih => simp [leavesOf, ih]

theorem holds_both (q : Reading) (qs : List Reading) :
    (both q qs).holds answer = (q :: qs).all (holds answer) := by
  rw [holds, values_eq_map, List.all_map, List.all_cons]
  rfl

theorem holds_either (q : Reading) (qs : List Reading) :
    (either q qs).holds answer = (q :: qs).any (holds answer) := by
  rw [holds, values_eq_map, List.any_map, List.any_cons]
  rfl

theorem text_both (outermost : Bool) (q : Reading) (qs : List Reading) :
    (both q qs).text outermost = joined "AND" outermost ((q :: qs).map (text false)) := by
  rw [text, texts_eq_map, List.map_cons]

theorem text_either (outermost : Bool) (q : Reading) (qs : List Reading) :
    (either q qs).text outermost = joined "OR" outermost ((q :: qs).map (text false)) := by
  rw [text, texts_eq_map, List.map_cons]

/-- A phrase never stands in parentheses. -/
theorem text_of_isPhrase (h : q.isPhrase = true) (outermost : Bool) : q.text outermost = q.text false := by
  cases q with
  | phrase => rw [text, text]
  | both | either | deny => cases h

end Reading

namespace Outline

mutual

/-- The leaves that have been told. -/
def leaves : Outline → List Leaf
  | leaf _ l => [l]
  | frame _ inner _ => leavesOf inner

def leavesOf : List Outline → List Leaf
  | [] => []
  | t :: ts => leaves t ++ leavesOf ts

end

theorem leavesOf_append (ts us : List Outline) : leavesOf (ts ++ us) = leavesOf ts ++ leavesOf us := by
  induction ts with
  | nil => rfl
  | cons t ts ih => rw [List.cons_append, leavesOf, leavesOf, ih, List.append_assoc]

theorem leavesOf_singleton (t : Outline) : leavesOf [t] = t.leaves := by
  rw [leavesOf, leavesOf, List.append_nil]

/-- The leaves of the reading have been told, and they apply. -/
def Covers (answer : Leaf → Status) (ts : List Outline) (q : Reading) : Prop :=
  ∀ l ∈ q.leaves, l ∈ leavesOf ts ∧ answer l ≠ .ignore

/-- A rule has answered `s` and told `ts` inside the rules `around`: what it leaves there is read as
true exactly if it succeeded, but for a leaf directly below a negation, which is worded the other way
round. -/
structure ReadsTrue (answer : Leaf → Status) (around : List FrameKind) (s : Status) (ts : List Outline) : Prop where
  silent : reported around s = false → parts .english isWorded around ts = []
  said : reported around s = true → ∃ q : Reading, parts .english isWorded around ts = [q.text around.isEmpty] ∧
    q.holds answer = (s.isSuccess != hasInline around ts) ∧ (hasInline around ts = true → q.isPhrase = true) ∧
    Covers answer ts q

variable {answer : Leaf → Status} {around : List FrameKind} {s : Status} {ts us : List Outline} {kind : FrameKind}
  {q : Reading}

theorem Covers.mono (h : Covers answer ts q) (hsub : leavesOf ts ⊆ leavesOf us) : Covers answer us q := fun l hl =>
  ⟨hsub (h l hl).1, (h l hl).2⟩

theorem covers_joined {qs : List Reading} (h : ∀ q ∈ qs, Covers answer ts q) {l : Leaf}
    (hl : l ∈ Reading.leavesOf qs) : l ∈ leavesOf ts ∧ answer l ≠ .ignore := by
  obtain ⟨q, hq, hl⟩ := Reading.mem_leavesOf.1 hl
  exact h q hq l hl

theorem reads_nil : ReadsTrue answer around .ignore [] where
  silent _ := rfl
  said hrep := absurd rfl (reported_ne_ignore hrep)

theorem reads_leaf {l : Leaf} (h : answer l = s) : ReadsTrue answer around s [.leaf s l] where
  silent hrep := by rw [parts_singleton, part?, hrep]; rfl
  said hrep := by
    have hinline : hasInline around [.leaf s l] = (around.head? == some .not) := by
      rw [hasInline, List.any_cons, List.any_nil, isSpoken, hrep, Bool.or_false, Bool.and_true]
    refine ⟨.phrase (around.head? == some .not) l, ?_, ?_, fun _ => rfl, ?_⟩
    · rw [parts_singleton, part?, if_pos hrep, Reading.text]
      rfl
    · rw [hinline, Reading.holds, h]
    · intro l' hl'
      rw [List.mem_singleton.1 hl']
      refine ⟨List.mem_singleton_self _, ?_⟩
      rw [h]
      exact reported_ne_ignore hrep

theorem reads_frame (h : reported around s = true → ∃ q : Reading,
      compose .english kind around.isEmpty (ts.any isWorded) (parts .english isWorded (kind :: around) ts) =
        some (q.text around.isEmpty) ∧ q.holds answer = s.isSuccess ∧ Covers answer ts q) :
    ReadsTrue answer around s [.frame kind ts s] where
  silent hrep := by rw [parts_singleton, part?, hrep]; rfl
  said hrep := by
    obtain ⟨q, htext, hholds, hcovers⟩ := h hrep
    have hinline : hasInline around [.frame kind ts s] = false := by
      rw [hasInline, List.any_cons, List.any_nil, isSpoken, Bool.or_false, Bool.and_false]
    refine ⟨q, ?_, ?_, ?_, ?_⟩
    · rw [parts_singleton, part?, if_pos hrep, htext]
      rfl
    · rw [hinline, hholds, Bool.bne_false]
    · rw [hinline]
      exact fun hfalse => absurd hfalse Bool.false_ne_true
    · exact hcovers.mono fun l hl => by rwa [leavesOf_singleton, leaves]

/-! ### Below a negation -/

theorem reads_not (h : ReadsTrue answer (.not :: around) s ts) :
    ReadsTrue answer around s.negate [.frame .not ts s.negate] := by
  refine reads_frame fun hrep => ?_
  have hs : s ≠ .ignore := by
    rintro rfl
    exact reported_ne_ignore hrep rfl
  have hnegate : s.negate.isSuccess = !s.isSuccess := by
    cases s with
    | ignore => exact absurd rfl hs
    | success | fail => rfl
  obtain ⟨q, htext, hholds, hphrase, hcovers⟩ := h.said (reported_not hrep hs)
  rw [hasInline_not hrep] at hholds hphrase
  rw [htext, hnegate]
  cases hinline : ts.any isWorded with
  | true =>
    -- the leaf has been worded the other way round, so it stands for the word NOT
    refine ⟨q, ?_, ?_, hcovers⟩
    · rw [q.text_of_isPhrase (hphrase hinline) around.isEmpty]
      rfl
    · rw [hholds, hinline, Bool.bne_true]
  | false =>
    refine ⟨.deny q, ?_, ?_, hcovers⟩
    · rw [Reading.text]
      rfl
    · rw [Reading.holds, hholds, hinline, Bool.bne_false]

/-! ### Rules side by side -/

/-- The answer of a rule with what the rule has told. -/
abbrev Told := Status × List Outline

/-- The readings are what rules leave side by side, one of each rule that is reported. -/
structure Renders (answer : Leaf → Status) (around : List FrameKind) (items : List Told) (qs : List Reading) :
    Prop where
  text : parts .english isWorded around (items.flatMap Prod.snd) = qs.map (Reading.text false)
  source : ∀ q ∈ qs, ∃ i ∈ items, reported around i.1 = true ∧ q.holds answer = i.1.isSuccess
  reading : ∀ i ∈ items, reported around i.1 = true → ∃ q ∈ qs, q.holds answer = i.1.isSuccess
  covers : ∀ q ∈ qs, Covers answer (items.flatMap Prod.snd) q

theorem exists_renders {items : List Told} (hkind : kind ≠ .not)
    (h : ∀ i ∈ items, ReadsTrue answer (kind :: around) i.1 i.2) : ∃ qs, Renders answer (kind :: around) items qs := by
  induction items with
  | nil => exact ⟨[], rfl, nofun, nofun, nofun⟩
  | cons i items ih =>
    obtain ⟨hi, hitems⟩ := List.forall_mem_cons.1 h
    obtain ⟨qs, hqs⟩ := ih hitems
    have hsource : ∀ q ∈ qs, ∃ j ∈ i :: items,
        reported (kind :: around) j.1 = true ∧ q.holds answer = j.1.isSuccess := by
      intro q hq
      obtain ⟨j, hj, hrest⟩ := hqs.source q hq
      exact ⟨j, List.mem_cons_of_mem _ hj, hrest⟩
    have hcovers : ∀ q ∈ qs, Covers answer ((i :: items).flatMap Prod.snd) q := by
      intro q hq
      refine (hqs.covers q hq).mono fun l hl => ?_
      rw [List.flatMap_cons, leavesOf_append]
      exact List.mem_append_right _ hl
    cases hrep : reported (kind :: around) i.1 with
    | false =>
      refine ⟨qs, ⟨?_, hsource, ?_, hcovers⟩⟩
      · rw [List.flatMap_cons, parts_append, hi.silent hrep, List.nil_append, hqs.text]
      · intro j hj hreported
        rcases List.mem_cons.1 hj with rfl | hj
        · rw [hrep] at hreported
          cases hreported
        · exact hqs.reading j hj hreported
    | true =>
      have hinline : hasInline (kind :: around) i.2 = false := by
        have hhead : ((kind :: around).head? == some .not) = false :=
          beq_false_of_ne fun heq => hkind (Option.some.inj heq)
        rw [hasInline, hhead, Bool.false_and]
      obtain ⟨q, htext, hholds, -, hq⟩ := hi.said hrep
      rw [hinline, Bool.bne_false] at hholds
      refine ⟨q :: qs, ⟨?_, ?_, ?_, ?_⟩⟩
      · rw [List.flatMap_cons, parts_append, htext, hqs.text]
        rfl
      · exact List.forall_mem_cons.2 ⟨⟨i, List.mem_cons_self .., hrep, hholds⟩, hsource⟩
      · intro j hj hreported
        rcases List.mem_cons.1 hj with rfl | hj
        · exact ⟨q, List.mem_cons_self .., hholds⟩
        · obtain ⟨q', hq', hrest⟩ := hqs.reading j hj hreported
          exact ⟨q', List.mem_cons_of_mem _ hq', hrest⟩
      · refine List.forall_mem_cons.2 ⟨hq.mono fun l hl => ?_, hcovers⟩
        rw [List.flatMap_cons, leavesOf_append]
        exact List.mem_append_left _ hl

theorem compose_english {outermost inline : Bool} {texts : List String} (hkind : kind.isExplained = false)
    (hnot : kind ≠ .not) (hne : texts ≠ []) : compose .english kind outermost inline texts =
      some (Reading.joined (Reporter.joint kind) outermost (if kind = .any then texts.eraseDups else texts)) := by
  have hkept : (if kind = .any then texts.eraseDups else texts).isEmpty = false := by
    obtain ⟨text, texts, rfl⟩ := List.exists_cons_of_ne_nil hne
    split
    · rw [List.eraseDups_cons]
      rfl
    · rfl
  cases kind with
  | not => exact absurd rfl hnot
  | explained => cases hkind
  | and | or | any | all => exact if_neg (by rw [hkept]; exact Bool.false_ne_true)

/-- A failing leaf is all that is said of a rule that fails because of it. -/
theorem parts_frame_leaf (kind : FrameKind) (hkind : kind.isExplained = false) (hnot : kind ≠ .not) (l : Leaf) :
    parts .english isWorded [] [.frame kind [.leaf .fail l] .fail] = [Locale.english.leafText false l] := by
  have hrep : reported [kind] .fail = true := reported_cons hkind rfl
  have hhead : ([kind].head? == some .not) = false := beq_false_of_ne fun heq => hnot (Option.some.inj heq)
  have hinner : parts .english isWorded [kind] [.leaf .fail l] = [Locale.english.leafText false l] := by
    rw [parts_singleton, part?, if_pos hrep, hhead]
    rfl
  have hkept : ∀ text : String, (if kind = .any then [text].eraseDups else [text]) = [text] := fun text => ite_self _
  have hframe : reported [] .fail = true := rfl
  rw [parts_singleton, part?, if_pos hframe, hinner, compose_english hkind hnot (List.cons_ne_nil _ _), hkept,
    Reading.joined_singleton]
  rfl

section Frames
variable {items : List Told} (h : ∀ i ∈ items, ReadsTrue answer (kind :: around) i.1 i.2)
  (hsome : reported around s = true → ∃ i ∈ items, i.1 = s)
include h hsome

theorem exists_readings (hkind : kind.isExplained = false) (hnot : kind ≠ .not) (hrep : reported around s = true) :
    ∃ q qs, Renders answer (kind :: around) items (q :: qs) ∧ ∃ q' ∈ q :: qs, q'.holds answer = s.isSuccess := by
  obtain ⟨qs, hqs⟩ := exists_renders hnot h
  obtain ⟨i, hi, rfl⟩ := hsome hrep
  obtain ⟨q', hq', hholds⟩ := hqs.reading i hi (reported_cons hkind hrep)
  cases qs with
  | nil => cases hq'
  | cons q qs => exact ⟨q, qs, hqs, q', hq', hholds⟩

theorem reads_both (hkind : kind = .and ∨ kind = .all) (hall : s ≠ .fail → ∀ i ∈ items, i.1 ≠ .fail) :
    ReadsTrue answer around s [.frame kind (items.flatMap Prod.snd) s] := by
  have hexplained : kind.isExplained = false := by rcases hkind with rfl | rfl <;> rfl
  have hnot : kind ≠ .not := by rcases hkind with rfl | rfl <;> decide
  refine reads_frame fun hrep => ?_
  obtain ⟨q, qs, hqs, q', hq', hholds⟩ := exists_readings h hsome hexplained hnot hrep
  refine ⟨.both q qs, ?_, ?_, ?_⟩
  · rw [compose_english hexplained hnot (by rw [hqs.text]; exact List.cons_ne_nil _ _), hqs.text, Reading.text_both]
    rcases hkind with rfl | rfl <;> rfl
  · rw [Reading.holds_both]
    cases hs : s.isSuccess with
    | false => exact List.all_eq_false.2 ⟨q', hq', by rw [hholds, hs]; exact Bool.false_ne_true⟩
    | true =>
      refine List.all_eq_true.2 fun q hq => ?_
      obtain ⟨i, hi, hreported, hqi⟩ := hqs.source q hq
      have hfail := hall (by rintro rfl; cases hs) i hi
      have hignore := reported_ne_ignore hreported
      rw [hqi]
      cases hi : i.1 with
      | success => rfl
      | fail => exact absurd hi hfail
      | ignore => exact absurd hi hignore
  · exact fun l hl => covers_joined hqs.covers hl

theorem reads_either (hkind : kind = .or) (hnone : s ≠ .success → ∀ i ∈ items, i.1 ≠ .success) :
    ReadsTrue answer around s [.frame kind (items.flatMap Prod.snd) s] := by
  subst hkind
  refine reads_frame fun hrep => ?_
  obtain ⟨q, qs, hqs, q', hq', hholds⟩ := exists_readings h hsome rfl (by decide) hrep
  refine ⟨.either q qs, ?_, ?_, ?_⟩
  · rw [compose_english rfl (by decide) (by rw [hqs.text]; exact List.cons_ne_nil _ _), hqs.text, Reading.text_either]
    rfl
  · rw [Reading.holds_either]
    cases hs : s.isSuccess with
    | true => exact List.any_eq_true.2 ⟨q', hq', hholds.trans hs⟩
    | false =>
      refine List.any_eq_false.2 fun q hq => ?_
      obtain ⟨i, hi, -, hqi⟩ := hqs.source q hq
      have hsuccess := hnone (by rintro rfl; cases hs) i hi
      rw [hqi]
      intro heq
      exact hsuccess (eq_of_beq heq)
  · exact fun l hl => covers_joined hqs.covers hl

/-- Outside of negations only failures are left, so repeats may be dropped. -/
theorem reads_any (hkind : kind = .any) (houtside : around.contains .not = false) :
    ReadsTrue answer around s [.frame kind (items.flatMap Prod.snd) s] := by
  subst hkind
  refine reads_frame fun hrep => ?_
  have hfail : s.isSuccess = false := by
    rw [reported, houtside, Bool.false_and, Bool.or_false, Bool.and_eq_true] at hrep
    rw [eq_of_beq hrep.2]
    rfl
  obtain ⟨q, qs, hqs, -⟩ := exists_readings h hsome rfl (by decide) hrep
  have hfalse : ∀ q' ∈ q :: qs, q'.holds answer = false := by
    intro q' hq'
    obtain ⟨i, hi, hreported, hq'⟩ := hqs.source q' hq'
    rw [reported, List.contains_cons, houtside, Bool.and_eq_true] at hreported
    have hi : i.1 = .fail := by simpa [Status.isFail] using hreported.2
    rw [hq', hi]
    rfl
  have hkept : ((q :: qs).map (Reading.text false)).eraseDups ⊆ (q :: qs).map (Reading.text false) :=
    fun t ht => List.mem_eraseDups.1 ht
  obtain ⟨ys, hsub, hys⟩ := exists_map_eq_of_subset hkept
  obtain ⟨y, ys, rfl⟩ : ∃ y ys', ys = y :: ys' := by
    rw [List.map_cons, List.eraseDups_cons] at hys
    cases ys with
    | nil => cases hys
    | cons y ys => exact ⟨y, ys, rfl⟩
  refine ⟨.either y ys, ?_, ?_, ?_⟩
  · rw [compose_english rfl (by decide) (by rw [hqs.text]; exact List.cons_ne_nil _ _), hqs.text, if_pos rfl, ← hys,
      Reading.text_either]
    rfl
  · rw [Reading.holds_either, hfail]
    refine List.any_eq_false.2 fun y hy => ?_
    rw [hfalse y (hsub hy)]
    exact Bool.false_ne_true
  · exact fun l hl => covers_joined (fun y hy => hqs.covers y (hsub hy)) hl

end Frames

end Outline

end Conform
