import Conform.Language.Wording

/-!
# Segments of members that are put together

A shown path is cut from the front: where a name begins, the one that ends last takes all keys up to there,
and any other key stands for itself (`Member.Segmented`). This takes every key into one segment, and there is
one way only to do it (`Segmented.unique`). If a member is bound in a scope, the cuts of the scope stay where
they are as long as its names end within its shown path, and those of the bound member follow behind them
(`Member.segments_append`). So in English a binding puts the text of what is bound and the word "of" in front
of the text of its scope, however the scope has been put together (`Member.text_append`).
-/

namespace Conform

/-- The name for the same keys of a path that stands behind `offset` others. -/
def NameSpan.shift (offset : Nat) (s : NameSpan) : NameSpan :=
  { s with start := s.start + offset, stop := s.stop + offset }

@[simp] theorem NameSpan.start_shift (offset : Nat) (s : NameSpan) : (s.shift offset).start = s.start + offset := rfl

@[simp] theorem NameSpan.stop_shift (offset : Nat) (s : NameSpan) : (s.shift offset).stop = s.stop + offset := rfl

/-- The segment under the shifted name, if it has one. -/
def Segment.shift (offset : Nat) (s : Segment) : Segment :=
  { s with name? := s.name?.map (NameSpan.shift offset) }

namespace Member
variable {names names' : List NameSpan} {start offset : Nat} {s : NameSpan} {p q : Path}
  {segments segments' : List Segment}

/-! ### The name at a position -/

/-- Whether the name begins at the position and covers a key. -/
def beginsAt (start : Nat) (s : NameSpan) : Bool :=
  s.start == start && start < s.stop

theorem beginsAt_iff : beginsAt start s = true ↔ s.start = start ∧ start < s.stop := by
  simp [beginsAt]

/-- Keeps the name that ends later; between equals the later one of the list. -/
def farther (best? : Option NameSpan) (s : NameSpan) : Option NameSpan :=
  match best? with
  | some best => if best.stop ≤ s.stop then some s else some best
  | none => some s

theorem nameAt?_eq (names : List NameSpan) (start : Nat) :
    nameAt? names start = (names.filter (beginsAt start)).foldl farther none := rfl

theorem foldl_farther {best : NameSpan} (h : names.foldl farther (some best) = some s) :
    s ∈ best :: names ∧ ∀ t ∈ best :: names, t.stop ≤ s.stop := by
  induction names generalizing best with
  | nil => cases h; simp
  | cons t ts ih =>
    rw [List.foldl_cons, farther] at h
    split at h
    all_goals
      obtain ⟨hmem, hle⟩ := ih h
      simp only [List.mem_cons, forall_eq_or_imp] at hmem hle ⊢
      obtain ⟨hbest, hle⟩ := hle
    · exact ⟨.inr hmem, by omega, hbest, hle⟩
    · exact ⟨hmem.imp_right .inr, hbest, by omega, hle⟩

/-- The name at a position begins there, covers a key, and ends as late as any that begins there. -/
theorem mem_of_nameAt? (h : nameAt? names start = some s) :
    s ∈ names ∧ s.start = start ∧ start < s.stop ∧ ∀ t ∈ names, t.start = start → t.stop ≤ s.stop := by
  rw [nameAt?_eq] at h
  cases hnames : names.filter (beginsAt start) with
  | nil => rw [hnames] at h; cases h
  | cons t ts =>
    rw [hnames] at h
    obtain ⟨hmem, hle⟩ := foldl_farther h
    rw [← hnames] at hmem hle
    obtain ⟨hmem, hbegins⟩ := List.mem_filter.1 hmem
    obtain ⟨hstart, hstop⟩ := beginsAt_iff.1 hbegins
    refine ⟨hmem, hstart, hstop, fun t ht hstart => ?_⟩
    by_cases hcovers : start < t.stop
    · exact hle t (List.mem_filter.2 ⟨ht, beginsAt_iff.2 ⟨hstart, hcovers⟩⟩)
    · omega

theorem nameAt?_append_left (h : ∀ s ∈ names', beginsAt start s = false) :
    nameAt? (names ++ names') start = nameAt? names start := by
  have hnone : names'.filter (beginsAt start) = [] := List.filter_eq_nil_iff.2 fun s hs => by simp [h s hs]
  rw [nameAt?_eq, nameAt?_eq, List.filter_append, hnone, List.append_nil]

theorem nameAt?_append_right (h : ∀ s ∈ names, beginsAt start s = false) :
    nameAt? (names ++ names') start = nameAt? names' start := by
  have hnone : names.filter (beginsAt start) = [] := List.filter_eq_nil_iff.2 fun s hs => by simp [h s hs]
  rw [nameAt?_eq, nameAt?_eq, List.filter_append, hnone, List.nil_append]

theorem foldl_farther_shift (names : List NameSpan) (best? : Option NameSpan) :
    (names.map (NameSpan.shift offset)).foldl farther (best?.map (NameSpan.shift offset)) =
      (names.foldl farther best?).map (NameSpan.shift offset) := by
  induction names generalizing best? with
  | nil => rfl
  | cons s names ih =>
    have hstep : farther (best?.map (NameSpan.shift offset)) (s.shift offset) =
        (farther best? s).map (NameSpan.shift offset) := by
      cases best? with
      | none => rfl
      | some best =>
        simp only [farther, Option.map_some, NameSpan.stop_shift, Nat.add_le_add_iff_right]
        split <;> rfl
    rw [List.map_cons, List.foldl_cons, List.foldl_cons, hstep, ih]

theorem nameAt?_shift (names : List NameSpan) (start offset : Nat) :
    nameAt? (names.map (NameSpan.shift offset)) (start + offset) =
      (nameAt? names start).map (NameSpan.shift offset) := by
  have hbegins : beginsAt (start + offset) ∘ NameSpan.shift offset = beginsAt start := by
    funext s
    rw [Function.comp_apply, Bool.eq_iff_iff, beginsAt_iff, beginsAt_iff, NameSpan.start_shift, NameSpan.stop_shift]
    omega
  rw [nameAt?_eq, nameAt?_eq, List.filter_map, hbegins]
  exact foldl_farther_shift _ none

/-! ### Cutting a path -/

/-- How the rest of a path is cut that begins at position `start`: where no name begins after the first key, and
otherwise where the name ends or, if that is behind it, at the end of the path. -/
inductive Segmented (names : List NameSpan) : Nat → Path → List Segment → Prop
  | nil (start : Nat) : Segmented names start [] []
  | key {start : Nat} {k : Key} {p : Path} {segments : List Segment} (h : nameAt? names start = none)
    (rest : Segmented names (start + 1) p segments) : Segmented names start (k :: p) (⟨[k], none⟩ :: segments)
  | name {start : Nat} {s : NameSpan} {k : Key} {p : Path} {segments : List Segment}
    (h : nameAt? names start = some s)
    (rest : Segmented names (min s.stop (start + (k :: p).length)) ((k :: p).drop (s.stop - start)) segments) :
    Segmented names start (k :: p) (⟨(k :: p).take (s.stop - start), some s⟩ :: segments)

theorem cut_eq (names : List NameSpan) (inside start : Nat) (p : Path) :
    cut names inside start p = (p.take inside, (cut names 0 (start + inside) (p.drop inside)).2) := by
  induction p generalizing inside start with
  | nil => cases inside <;> simp [cut]
  | cons k p ih =>
    cases inside with
    | zero => exact Prod.ext (cut_zero names start (k :: p)) rfl
    | succ inside =>
      rw [cut, ih]
      simp [Nat.add_assoc, Nat.add_comm 1]

/-- The cut takes the names as they come. -/
theorem segmented_cut (names : List NameSpan) :
    ∀ (start : Nat) (p : Path), Segmented names start p (cut names 0 start p).2
  | start, [] => .nil start
  | start, k :: p => by
    rw [cut]
    cases h : nameAt? names start with
    | none =>
      have hown : (cut names 0 (start + 1) p).1 = [] := cut_zero names (start + 1) p
      simp only [hown]
      exact .key h (segmented_cut names (start + 1) p)
    | some s =>
      have hlength : s.stop - start = s.stop - start - 1 + 1 := by
        obtain ⟨-, -, hstop, -⟩ := mem_of_nameAt? h
        omega
      have rest := Segmented.name h
        (segmented_cut names (min s.stop (start + (k :: p).length)) ((k :: p).drop (s.stop - start)))
      rw [hlength, List.take_succ_cons, List.drop_succ_cons] at rest
      simp only [cut_eq names (s.stop - start - 1) (start + 1) p]
      -- if the name ends behind the last key, nothing is left to be cut
      by_cases hp : p.length ≤ s.stop - start - 1
      · rw [List.drop_eq_nil_of_le hp] at rest ⊢
        exact rest
      · have hstop : min s.stop (start + (k :: p).length) = start + 1 + (s.stop - start - 1) := by
          rw [List.length_cons]
          omega
        rwa [hstop] at rest
termination_by _ p => p.length
decreasing_by all_goals simp only [List.length_cons, List.length_drop]; omega

namespace Segmented

theorem unique (h : Segmented names start p segments) (h' : Segmented names start p segments') :
    segments = segments' := by
  induction h generalizing segments' with
  | nil => cases h'; rfl
  | key h _ ih =>
    cases h' with
    | key _ rest => rw [ih rest]
    | name h' => cases h.symm.trans h'
  | name h _ ih =>
    cases h' with
    | key h' => cases h.symm.trans h'
    | name h' rest =>
      cases h.symm.trans h'
      rw [ih rest]

/-- What is cut off at the front stays cut off if more keys follow, as long as no name reaches them. -/
theorem append (h : Segmented names start p segments)
    (hnames : ∀ i < start + p.length, nameAt? names' i = nameAt? names i)
    (hwithin : ∀ s ∈ names, s.stop ≤ start + p.length) (hrest : Segmented names' (start + p.length) q segments') :
    Segmented names' start (p ++ q) (segments ++ segments') := by
  induction h with
  | nil start => exact hrest
  | @key start k p segments h _ ih =>
    have hlength : start + (k :: p).length = start + 1 + p.length := by rw [List.length_cons]; omega
    rw [hlength] at hnames hwithin hrest
    exact .key ((hnames start (by omega)).trans h) (ih hnames hwithin hrest)
  | @name start s k p segments h _ ih =>
    obtain ⟨hmem, -, hstart, -⟩ := mem_of_nameAt? h
    have hstop := hwithin s hmem
    have hlength : min s.stop (start + (k :: p).length) + ((k :: p).drop (s.stop - start)).length =
        start + (k :: p).length := by
      rw [List.length_drop]
      omega
    rw [hlength] at ih
    have hname := (hnames start (by rw [List.length_cons]; omega)).trans h
    have hcovered : s.stop - start ≤ (k :: p).length := by omega
    have hown : (k :: p ++ q).take (s.stop - start) = (k :: p).take (s.stop - start) :=
      List.take_append_of_le_length hcovered
    have hnext : (k :: p ++ q).drop (s.stop - start) = (k :: p).drop (s.stop - start) ++ q :=
      List.drop_append_of_le_length hcovered
    have hends : min s.stop (start + (k :: p ++ q).length) = min s.stop (start + (k :: p).length) := by
      rw [List.length_append]
      omega
    rw [List.cons_append, ← hown]
    refine .name hname ?_
    rw [← List.cons_append, hnext, hends]
    exact ih hnames hwithin hrest

theorem shift (h : Segmented names start p segments)
    (hnames : ∀ i, nameAt? names' (i + offset) = (nameAt? names i).map (NameSpan.shift offset)) :
    Segmented names' (start + offset) p (segments.map (Segment.shift offset)) := by
  induction h with
  | nil start => exact .nil _
  | @key start k p segments h _ ih =>
    have hname : nameAt? names' (start + offset) = none := by rw [hnames, h]; rfl
    rw [Nat.add_right_comm] at ih
    exact .key hname ih
  | @name start s k p segments h _ ih =>
    have hname : nameAt? names' (start + offset) = some (s.shift offset) := by rw [hnames, h]; rfl
    have hcovers : (s.shift offset).stop - (start + offset) = s.stop - start := Nat.add_sub_add_right ..
    have hends : min (s.shift offset).stop (start + offset + (k :: p).length) =
        min s.stop (start + (k :: p).length) + offset := by
      rw [NameSpan.stop_shift]
      omega
    rw [List.map_cons, Segment.shift, Option.map_some, ← hcovers]
    refine .name hname ?_
    rw [hcovers, hends]
    exact ih

end Segmented

/-! ### Binding a member in a scope -/

/-- The display names end within the path that is shown. -/
def NamesWithin (m : Member) : Prop :=
  ∀ s ∈ m.names, s.stop ≤ m.shown.length

instance (m : Member) : Decidable m.NamesWithin :=
  inferInstanceAs (Decidable (∀ s ∈ m.names, _))

/-- The members that rules are written with. -/
inductive Built : Member → Prop
  | root : Built root
  | extend {m : Member} (h : Built m) (keys : Path) : Built (m.extend keys)
  | named {m : Member} (h : Built m) (text : String) (grammar : Grammar) : Built (m.named text grammar)
  /-- The object whose property the member ends with, if it does. -/
  | owner {m : Member} (h : Built m) : Built m.splitProperty.1

/-- A member that a rule is written with is shown by its path. -/
theorem Built.display?_eq {m : Member} (h : m.Built) : m.display? = none := by
  induction h with
  | root => rfl
  | named _ _ _ ih => exact ih
  | extend _ _ ih => rw [Member.extend, ih]; rfl
  | owner _ ih =>
    rw [splitProperty]
    split
    · exact ih
    · rw [ih]; rfl

/-- What `bound` stands for where the scope is what its path begins at. -/
def append (scope bound : Member) : Member :=
  (scope.adoptNames bound).extend bound.path

variable {scope bound : Member}

theorem names_append (scope bound : Member) :
    (scope.append bound).names = scope.names ++ bound.names.map (NameSpan.shift scope.shown.length) := rfl

theorem shown_append (hdisplay : bound.display? = none) : (scope.append bound).shown = scope.shown ++ bound.shown := by
  have hshown : bound.shown = bound.path := by rw [shown, hdisplay]; rfl
  rw [append, shown_extend, hshown]
  rfl

theorem namesWithin_append (hscope : scope.NamesWithin) (hbound : bound.NamesWithin)
    (hdisplay : bound.display? = none) : (scope.append bound).NamesWithin := by
  intro s hs
  rw [shown_append hdisplay, List.length_append]
  rw [names_append] at hs
  rcases List.mem_append.1 hs with hs | hs
  · have hstop := hscope s hs
    omega
  · obtain ⟨t, ht, rfl⟩ := List.mem_map.1 hs
    have hstop := hbound t ht
    rw [NameSpan.stop_shift]
    omega

theorem segmented_segments (m : Member) : Segmented m.names 0 m.shown m.segments :=
  segmented_cut m.names 0 m.shown

theorem segmented_iff {m : Member} : Segmented m.names 0 m.shown segments ↔ segments = m.segments :=
  ⟨fun h => h.unique m.segmented_segments, fun h => h ▸ m.segmented_segments⟩

theorem segments_append (hscope : scope.NamesWithin) (hdisplay : bound.display? = none) :
    (scope.append bound).segments = scope.segments ++ bound.segments.map (Segment.shift scope.shown.length) := by
  have hbefore : ∀ i < 0 + scope.shown.length, nameAt? (scope.append bound).names i = nameAt? scope.names i := by
    intro i hi
    rw [names_append]
    refine nameAt?_append_left fun s hs => ?_
    obtain ⟨t, -, rfl⟩ := List.mem_map.1 hs
    rw [← Bool.not_eq_true, beginsAt_iff, NameSpan.start_shift]
    omega
  have hbehind : ∀ i, nameAt? (scope.append bound).names (i + scope.shown.length) =
      (nameAt? bound.names i).map (NameSpan.shift scope.shown.length) := by
    intro i
    rw [names_append, ← nameAt?_shift]
    refine nameAt?_append_right fun s hs => ?_
    have hstop := hscope s hs
    rw [← Bool.not_eq_true, beginsAt_iff]
    omega
  have hwithin : ∀ s ∈ scope.names, s.stop ≤ 0 + scope.shown.length := by rwa [Nat.zero_add]
  have hcut := segmented_segments (scope.append bound)
  rw [shown_append hdisplay] at hcut
  refine hcut.unique ((segmented_segments scope).append hbefore hwithin ?_)
  exact (segmented_segments bound).shift hbehind

theorem segments_ne_nil {m : Member} (h : m.shown ≠ []) : m.segments ≠ [] := fun hnil =>
  h (by rw [← m.flatMap_keys_segments, hnil]; rfl)

end Member

/-! ### Texts -/

/-- What a segment is called in English. -/
def Segment.wording (s : Segment) : String :=
  (Locale.english.segmentPhrase .empty s).text

@[simp] theorem Segment.wording_shift (offset : Nat) (s : Segment) : (s.shift offset).wording = s.wording := by
  obtain ⟨keys, name?⟩ := s
  cases name? <;> rfl

namespace Locale

theorem segmentPhrase_english (context : Grammar) (s : Segment) :
    (english.segmentPhrase context s).text = s.wording := by
  obtain ⟨keys, name?⟩ := s
  cases name? with
  | some name => rfl
  | none =>
    cases keys with
    | nil => rfl
    | cons k _ =>
      cases k with
      | name | index | property => rfl
      | expand e =>
        cases e with
        | each q | tree q | variadic q => cases q <;> rfl

theorem owners_english (context context' : Grammar) (s : Segment) (segments : List Segment) :
    (english.segmentPhrase context s).text ++ english.owners context' segments =
      " of ".intercalate ((s :: segments).map Segment.wording) := by
  induction segments generalizing context context' s with
  | nil => simp [owners, segmentPhrase_english]
  | cons t segments ih =>
    have hof : " of " = " " ++ "of" ++ " " := by decide
    have hrest := ih (context'.union .empty) (english.segmentPhrase (context'.union .empty) t).grammar t
    rw [List.map_cons, List.map_cons, String.intercalate_cons_cons, ← List.map_cons, ← hrest, owners,
      segmentPhrase_english]
    simp only [hof, String.append_assoc]
    rfl

theorem memberPhrase_english (context : Grammar) (m : Member) :
    (english.memberPhrase context m).text = " of ".intercalate (m.segments.map Segment.wording).reverse := by
  rw [memberPhrase, ← List.map_reverse]
  cases m.segments.reverse with
  | nil => rfl
  | cons s segments => exact owners_english context _ s segments

end Locale

theorem intercalate_concat (link s t : String) (texts : List String) :
    link.intercalate (texts ++ [t ++ link ++ s]) = link.intercalate (texts ++ [t, s]) := by
  by_cases h : texts = []
  · simp [h]
  · simp [String.intercalate_append_of_ne_nil h]

namespace Member
variable {scope bound : Member}

theorem text_append (hscope : scope.NamesWithin) (hdisplay : bound.display? = none) (hs : scope.shown ≠ [])
    (hb : bound.shown ≠ []) (context : Grammar) :
    (Locale.english.memberPhrase context (scope.append bound)).text =
      (Locale.english.memberPhrase context bound).text ++ " of " ++
        (Locale.english.memberPhrase context scope).text := by
  have hwordings : (bound.segments.map (Segment.shift scope.shown.length)).map Segment.wording =
      bound.segments.map Segment.wording := by simp [Function.comp_def]
  simp only [Locale.memberPhrase_english, segments_append hscope hdisplay, List.map_append, hwordings,
    List.reverse_append]
  exact String.intercalate_append_of_ne_nil (by simpa using segments_ne_nil hb) (by simpa using segments_ne_nil hs)

/-- Members that are bound one in the other read from the innermost one out. -/
theorem text_nested {bounds : List Member} (hscope : scope.NamesWithin) (hs : scope.shown ≠ [])
    (hbounds : ∀ m ∈ bounds, m.Built ∧ m.NamesWithin ∧ m.shown ≠ []) (context : Grammar) :
    (Locale.english.memberPhrase context (bounds.foldl append scope)).text =
      " of ".intercalate ((scope :: bounds).map fun m => (Locale.english.memberPhrase context m).text).reverse := by
  -- the members bound so far are the scope of the next one
  induction bounds generalizing scope with
  | nil => exact String.intercalate_singleton.symm
  | cons bound bounds ih =>
    obtain ⟨⟨hbuilt, hbound, hb⟩, hbounds⟩ := List.forall_mem_cons.1 hbounds
    have hdisplay := hbuilt.display?_eq
    have hshown : (scope.append bound).shown ≠ [] := by simp [shown_append hdisplay, hs]
    rw [List.foldl_cons, ih (namesWithin_append hscope hbound hdisplay) hshown hbounds, List.map_cons,
      text_append hscope hdisplay hs hb, List.reverse_cons, intercalate_concat]
    simp

/-- A member and what is bound in it. However the scope has been put together and whatever it shows in the place
of its path: every path that is shown is cut into segments with keys, each key in one of them, in the only way
there is; and if the names of both end within what is shown, the names of what is put together do so too, and its
text is that of the bound member in front of that of the scope. -/
theorem segments_and_text_of_binding {scope bound : Member} (hbuilt : bound.Built) (hscope : scope.NamesWithin)
    (hbound : bound.NamesWithin) :
    let whole := (scope.adoptNames bound).extend bound.path
    (∀ m ∈ [scope, bound, whole], (∀ segments, Segmented m.names 0 m.shown segments ↔ segments = m.segments) ∧
      m.segments.flatMap Segment.keys = m.shown ∧ ∀ s ∈ m.segments, s.keys ≠ []) ∧
    whole.NamesWithin ∧
    (scope.shown ≠ [] → bound.shown ≠ [] → ∀ context,
      (Locale.english.memberPhrase context whole).text = (Locale.english.memberPhrase context bound).text ++ " of " ++
        (Locale.english.memberPhrase context scope).text) := by
  intro whole
  have hdisplay := hbuilt.display?_eq
  refine ⟨fun m _ => ⟨fun _ => segmented_iff, m.flatMap_keys_segments, ?_⟩, ?_, ?_⟩
  · exact fun s hs => keys_ne_nil_of_mem_cut hs
  · exact namesWithin_append hscope hbound hdisplay
  · exact fun hs hb context => text_append hscope hdisplay hs hb context

/-- The scope is a node two levels down in a tree of which any node will do, so that it is shown by fewer keys than
lead to it. The names of both are kept. -/
theorem segments_and_text_of_binding_plan :
    let parts : Expansion := .tree .any (.name "parts") none
    let plan : Member := (root.extend [.name "plan"]).named "the plan" .empty
    let node : Path := [.name "parts", .index 1, .name "parts", .index 0]
    let scope := ((root.adoptNames plan).extend plan.path).element node parts.display?
    let bound := ((root.extend [.name "price"]).named "the price" (.ofCategory .singular)).extend [.name "net"]
    let whole := (scope.adoptNames bound).extend bound.path
    (bound.Built ∧ scope.NamesWithin ∧ bound.NamesWithin) ∧ scope.shown.length + 3 = scope.path.length ∧
      whole.segments.length = 4 ∧
      (Locale.english.memberPhrase .empty whole).text = "net of the price of at least one node of the plan" := by
  intro parts plan node scope bound whole
  have hbuilt : bound.Built := .extend (.named (.extend .root _) _ _) _
  have hscope : scope.NamesWithin := by decide
  have hbound : bound.NamesWithin := by decide
  have h := segments_and_text_of_binding hbuilt hscope hbound
  refine ⟨⟨hbuilt, hscope, hbound⟩, rfl, ?_, ?_⟩
  · decide +kernel
  · rw [h.2.2 nofun nofun .empty]
    decide +kernel

end Member

end Conform
