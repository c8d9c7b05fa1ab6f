import Conform.Proofs.Counting
import Conform.Proofs.Outline

/-!
# Members that read alike

A key that counts positions reads like the key that runs through the elements, so members whose shown
paths differ in such keys read alike (`Locale.memberPhrase_counted`), and so do the leaves that are about
them (`Locale.leafText_counted`). Forests that differ in such leaves leave the same text
(`Outline.Alike.parts_eq`) and accuse members one for one (`Outline.Alike.accusedOf`).
-/

namespace Conform

/-! ### Members -/

/-- Members of the same display names. The path and what is shown in its place may have keys that
count what those of the first run through; in the path this must be allowed. -/
structure Member.Counted (allowed : Bool) (m m' : Member) : Prop where
  path : m.path.Counted allowed m'.path
  display? : Option.Rel (Path.Counted true) m.display? m'.display?
  names : m.names = m'.names

theorem rel_map {α β γ δ : Type} {R : α → β → Prop} {S : γ → δ → Prop} {f : α → γ} {g : β → δ} {a? : Option α}
    {b? : Option β} (h : Option.Rel R a? b?) (hfg : ∀ a b, R a b → S (f a) (g b)) :
    Option.Rel S (a?.map f) (b?.map g) := by
  cases h with
  | none => exact .none
  | some h => exact .some (hfg _ _ h)

namespace Member.Counted
variable {allowed : Bool} {m m' : Member} {keys keys' : Path}

theorem of_eq (hpath : m.path = m'.path) (hdisplay : m.display? = m'.display?) (hnames : m.names = m'.names) :
    m.Counted allowed m' := by
  refine ⟨hpath ▸ .refl allowed m.path, ?_, hnames⟩
  rw [← hdisplay]
  cases m.display? with
  | none => exact .none
  | some p => exact .some (.refl true p)

/-- Where the path is kept, it does not matter what is allowed. -/
theorem of_kept (h : m.Counted false m') : m.Counted allowed m' :=
  ⟨h.path.eq ▸ .refl allowed m.path, h.display?, h.names⟩

theorem path_eq (h : m.Counted false m') : m.path = m'.path :=
  h.path.eq

theorem isRoot_eq (h : m.Counted allowed m') : m.isRoot = m'.isRoot := by
  rw [Bool.eq_iff_iff, isRoot, isRoot, List.isEmpty_iff_length_eq_zero, List.isEmpty_iff_length_eq_zero,
    h.path.length_eq]

theorem shown (h : m.Counted allowed m') : m.shown.Counted true m'.shown := by
  obtain ⟨path, display?, names⟩ := m
  obtain ⟨path', display'?, names'⟩ := m'
  obtain ⟨hpath, hdisplay, -⟩ := h
  cases hdisplay with
  | none => exact hpath.mono
  | some hdisplay => exact hdisplay

theorem splitProperty (h : m.Counted allowed m') :
    m.splitProperty.1.Counted allowed m'.splitProperty.1 ∧ m.splitProperty.2 = m'.splitProperty.2 := by
  obtain ⟨howner, hproperty⟩ := h.path.splitProperty
  unfold Member.splitProperty
  generalize Path.splitProperty m.path = s at howner hproperty
  generalize Path.splitProperty m'.path = s' at howner hproperty
  obtain ⟨p, p?⟩ := s
  obtain ⟨p', p'?⟩ := s'
  cases hproperty
  cases p? with
  | none => exact ⟨h, rfl⟩
  | some q =>
    refine ⟨⟨howner, rel_map h.display? fun p p' hp => ?_, h.names⟩, rfl⟩
    rw [List.dropLast_eq_take, List.dropLast_eq_take, hp.length_eq]
    exact List.forall₂_take _ hp

theorem extend (h : m.Counted allowed m') (hkeys : keys.Counted allowed keys') :
    (m.extend keys).Counted allowed (m'.extend keys') :=
  ⟨h.path.append hkeys, rel_map h.display? fun _ _ hp => hp.append hkeys.mono, h.names⟩

/-- An element of a container stays where it is if its container does, however it is shown. -/
theorem element {k? k'? : Option Key} (h : m.Counted allowed m') (suffix : Path) (hk : Option.Rel (Key.Counted true) k? k'?) :
    (m.element suffix k?).Counted allowed (m'.element suffix k'?) := by
  refine ⟨h.path.append (.refl allowed suffix), ?_, h.names⟩
  cases hk with
  | none => exact rel_map h.display? fun _ _ hp => hp.append (.refl true suffix)
  | some hk => exact .some (h.shown.append (.cons hk .nil))

theorem adoptNames {bound bound' : Member} (h : m.Counted allowed m') (hbound : bound.names = bound'.names) :
    (m.adoptNames bound).Counted allowed (m'.adoptNames bound') := by
  refine ⟨h.path, h.display?, ?_⟩
  rw [Member.adoptNames, Member.adoptNames, h.names, hbound, h.shown.length_eq]

end Member.Counted

/-! ### Leaves and rules -/

/-- The operand is the same or, if it is another member, that may have keys that count. -/
inductive Operand.Counted (allowed : Bool) : Operand → Operand → Prop
  | value (v : Value) : Counted allowed (.value v) (.value v)
  | sample (o : Object) : Counted allowed (.sample o) (.sample o)
  | member {m m' : Member} (h : m.Counted allowed m') : Counted allowed (.member m) (.member m')

/-- Leaves about the same place, however it is shown. An operand may have keys that count if that is
allowed, and the member of a question of existence if it may be one of an operand. -/
inductive Leaf.Counted (allowed asked : Bool) : Leaf → Leaf → Prop
  | check {m m' : Member} {operand operand' : Operand} (subject : Subject) (p? : Option Property) (op : Operator)
    (hm : m.Counted false m') (ho : operand.Counted allowed operand') :
    Counted allowed asked (.check subject ⟨m, p?, op, operand⟩) (.check subject ⟨m', p?, op, operand'⟩)
  | presence {m m' : Member} (p? : Option Property) (expected : Bool) (hm : m.Counted asked m') :
    Counted allowed asked (.presence m p? expected) (.presence m' p? expected)

/-- The second rule is the first with some of its keys exchanged for keys that count. In the paths of
operands this must be allowed. -/
inductive Rule.Counted (allowed : Bool) : Rule → Rule → Prop
  | condition {operand operand' : Operand} (op : Operator) (h : operand.Counted allowed operand') :
    Counted allowed (.condition op operand) (.condition op operand')
  | property {operand operand' : Operand} (p : Property) (op : Operator) (h : operand.Counted allowed operand') :
    Counted allowed (.property p op operand) (.property p op operand')
  | presence (expected : Bool) : Counted allowed (.presence expected) (.presence expected)
  | bind {m m' : Member} {body body' : Rule} (hm : m.Counted true m') (h : Counted allowed body body') :
    Counted allowed (.bind m body) (.bind m' body')
  | group {rules rules' : List Rule} (k : Connective) (h : List.Forall₂ (Counted allowed) rules rules') :
    Counted allowed (.group k rules) (.group k rules')
  | elements {e e' : Expansion} {rules rules' : List Rule} (he : Key.Counted true (.expand e) (.expand e'))
    (h : List.Forall₂ (Counted allowed) rules rules') : Counted allowed (.elements e rules) (.elements e' rules')
  | explain {body body' : Rule} (message : String) (h : Counted allowed body body') :
    Counted allowed (.explain message body) (.explain message body')

theorem Leaf.counted_compare {allowed asked : Bool} {scope scope' : Member} {operand operand' : Operand}
    (hs : scope.Counted false scope') (p? : Option Property) (op : Operator) (h : operand.Counted allowed operand') :
    (compare scope p? op operand).Counted allowed asked (compare scope' p? op operand') := by
  cases h with
  | value v =>
    rw [compare, compare, ← hs.isRoot_eq]
    dsimp only
    split
    · exact .check _ p? op (.of_eq rfl rfl rfl) (.value v)
    · exact .check .member p? op hs (.value v)
  | sample o => exact .check .sample p? op hs (.sample o)
  | member h => exact .check .other p? op hs (.member h)

/-! ### Texts -/

/-- Stretches under the same display name, of keys that read alike. -/
structure Segment.Counted (s s' : Segment) : Prop where
  keys : s.keys.Counted true s'.keys
  name : s.name? = s'.name?

theorem Member.cut_counted {p p' : Path} (h : p.Counted true p') (names : List NameSpan) (inside start : Nat) :
    (cut names inside start p).1.Counted true (cut names inside start p').1 ∧
      List.Forall₂ Segment.Counted (cut names inside start p).2 (cut names inside start p').2 := by
  induction h generalizing inside start with
  | nil => cases inside <;> exact ⟨.nil, .nil⟩
  | cons hk _ ih =>
    cases inside with
    | succ inside => exact ⟨.cons hk (ih inside (start + 1)).1, (ih inside (start + 1)).2⟩
    | zero =>
      rw [cut, cut]
      cases nameAt? names start with
      | none => exact ⟨.nil, .cons ⟨.cons hk (ih _ _).1, rfl⟩ (ih _ _).2⟩
      | some s => exact ⟨.nil, .cons ⟨.cons hk (ih _ _).1, rfl⟩ (ih _ _).2⟩

namespace Locale
variable {l : Locale} {context : Grammar} {allowed asked : Bool} {m m' : Member}

theorem keyPhrase_counted {k k' : Key} (h : k.Counted true k') : l.keyPhrase context k = l.keyPhrase context k' := by
  cases h with
  | same => rfl
  | size q | children q => cases q <;> rfl

theorem segmentPhrase_counted {s s' : Segment} (h : s.Counted s') :
    l.segmentPhrase context s = l.segmentPhrase context s' := by
  obtain ⟨keys, name?⟩ := s
  obtain ⟨keys', name'?⟩ := s'
  obtain ⟨hkeys, rfl⟩ := h
  cases name? with
  | some name => rfl
  | none =>
    cases hkeys with
    | nil => rfl
    | cons hk _ => exact keyPhrase_counted hk

theorem owners_counted {ss ss' : List Segment} (h : List.Forall₂ Segment.Counted ss ss') :
    l.owners context ss = l.owners context ss' := by
  induction h generalizing context with
  | nil => rfl
  | cons hs _ ih =>
    simp only [owners, segmentPhrase_counted hs, ih]

theorem memberPhrase_counted (h : m.Counted allowed m') : l.memberPhrase context m = l.memberPhrase context m' := by
  have hsegments : List.Forall₂ Segment.Counted m.segments.reverse m'.segments.reverse := by
    rw [Member.segments, Member.segments, h.names]
    exact List.rel_reverse (Member.cut_counted h.shown m'.names 0 0).2
  rw [memberPhrase, memberPhrase]
  generalize m.segments.reverse = ss at hsegments
  generalize m'.segments.reverse = ss' at hsegments
  cases hsegments with
  | nil => rfl
  | cons hs hss => simp only [segmentPhrase_counted hs, owners_counted hss]

theorem subjectPhrase_counted (h : m.Counted allowed m') (p? : Option Property) :
    l.subjectPhrase m p? = l.subjectPhrase m' p? := by
  rw [subjectPhrase, subjectPhrase, h.isRoot_eq]
  cases p?.filter fun p => !p.isValue with
  | none => exact memberPhrase_counted h
  | some p => simp only [memberPhrase_counted h]

theorem operandText_counted {operand operand' : Operand} (hm : m.Counted false m')
    (ho : operand.Counted allowed operand') (p? : Option Property) (op : Operator) :
    l.operandText context ⟨m, p?, op, operand⟩ = l.operandText context ⟨m', p?, op, operand'⟩ := by
  cases ho with
  | value v => rfl
  | sample o => simp only [operandText, subjectPhrase_counted hm]
  | member h =>
    obtain ⟨howner, hproperty⟩ := h.splitProperty
    simp only [operandText, hproperty, subjectPhrase_counted howner]

theorem condition_counted {operand operand' : Operand} (hm : m.Counted false m')
    (ho : operand.Counted allowed operand') (p? : Option Property) (op : Operator) (negate : Bool) :
    l.condition ⟨m, p?, op, operand⟩ negate = l.condition ⟨m', p?, op, operand'⟩ negate := by
  have hflag : l.flagText? ⟨m, p?, op, operand⟩ negate = l.flagText? ⟨m', p?, op, operand'⟩ negate := by
    cases ho with
    | value v => simp only [flagText?, memberPhrase_counted hm]
    | sample | member =>
      rw [flagText?, flagText?]
      cases p?.bind Property.wording? <;> rfl
  rw [condition, condition, hflag]
  cases l.flagText? ⟨m', p?, op, operand'⟩ negate with
  | some text => rfl
  | none =>
    simp only [subjectPhrase_counted hm, operandText_counted hm ho]
    cases ho <;> rfl

theorem leafText_counted {q q' : Leaf} (h : q.Counted allowed asked q') (negate : Bool) :
    l.leafText negate q = l.leafText negate q' := by
  cases h with
  | check subject p? op hm ho => exact condition_counted hm ho p? op negate
  | presence p? expected hm => simp only [leafText, presence, subjectPhrase_counted hm]

end Locale

/-! ### Forests -/

namespace Outline

/-- Forests of the same shape, with the same answers to leaves that are alike. -/
inductive Alike (R : Leaf → Leaf → Prop) : List Outline → List Outline → Prop
  | nil : Alike R [] []
  | leaf {l l' : Leaf} {ts us : List Outline} (s : Status) (hl : R l l') (h : Alike R ts us) :
    Alike R (.leaf s l :: ts) (.leaf s l' :: us)
  | frame {inner inner' ts us : List Outline} (kind : FrameKind) (s : Status) (hinner : Alike R inner inner')
    (h : Alike R ts us) : Alike R (.frame kind inner s :: ts) (.frame kind inner' s :: us)

namespace Alike
variable {R : Leaf → Leaf → Prop} {ts us ts' us' : List Outline}

theorem append (h : Alike R ts us) (h' : Alike R ts' us') : Alike R (ts ++ ts') (us ++ us') := by
  induction h with
  | nil => exact h'
  | leaf s hl _ ih => exact .leaf s hl ih
  | frame kind s hinner _ _ ih => exact .frame kind s hinner ih

theorem any_isWorded (h : Alike R ts us) : ts.any isWorded = us.any isWorded := by
  induction h with
  | nil => rfl
  | leaf s hl _ ih => rw [List.any_cons, List.any_cons, isWorded, isWorded, ih]
  | frame kind s _ _ _ ih => rw [List.any_cons, List.any_cons, isWorded, isWorded, ih]

theorem parts_eq {l : Locale} (hR : ∀ q q' negate, R q q' → l.leafText negate q = l.leafText negate q')
    (h : Alike R ts us) (around : List FrameKind) : parts l isWorded around ts = parts l isWorded around us := by
  induction h generalizing around with
  | nil => rfl
  | leaf s hl _ ih => rw [parts, parts, part?, part?, hR _ _ _ hl, ih]
  | frame kind s hinner _ ihinner ih =>
    rw [parts, parts, part?, part?, hinner.any_isWorded, ihinner (kind :: around), ih]

theorem accusedOf {S : Member → Member → Prop} (hR : ∀ q q', R q q' → S q.member q'.member) (h : Alike R ts us)
    (around : List FrameKind) : List.Forall₂ S (Outline.accusedOf around ts) (Outline.accusedOf around us) := by
  induction h generalizing around with
  | nil => exact .nil
  | leaf s hl _ ih =>
    rw [Outline.accusedOf, Outline.accusedOf, accused, accused]
    split
    · exact .cons (hR _ _ hl) (ih around)
    · exact ih around
  | frame kind s _ _ ihinner ih =>
    rw [Outline.accusedOf, Outline.accusedOf, accused, accused]
    exact List.rel_append (ihinner (kind :: around)) (ih around)

end Alike

end Outline

end Conform
