import Conform.Report
import Mathlib.Data.List.Induction

/-!
# Outlines of passes

What a reporter is told, rules that open and close and leaves in between, is a forest
(`Event.exists_outlines`). `Outline.parts` reads the texts off the forest: what a leaf or a rule
leaves depends only on its answer and on the rules around it. The reporter, which sees one event at a
time, comes to the same texts and to the same failing members (`Reporter.finish_balanced`).
-/

namespace Conform

/-- What a reporter is told. -/
inductive Event where
  | enter (kind : FrameKind)
  | leaf (s : Status) (l : Leaf)
  | leave (s : Status)

/-- A leaf with its answer, or a rule with its answer and what has been told while it was open. -/
inductive Outline where
  | leaf (s : Status) (l : Leaf)
  | frame (kind : FrameKind) (inner : List Outline) (s : Status)

namespace Outline

mutual

/-- An outline as it is told. -/
def events : Outline → List Event
  | leaf s l => [.leaf s l]
  | frame kind inner s => .enter kind :: (eventsOf inner ++ [.leave s])

def eventsOf : List Outline → List Event
  | [] => []
  | t :: ts => events t ++ eventsOf ts

end

end Outline

/-! ### Forests -/

namespace Event

/-- Whether all rules close in the end, if `depth` rules are open already. -/
def balanced : Nat → List Event → Bool
  | depth, [] => depth == 0
  | depth, .leaf _ _ :: es => balanced depth es
  | depth, .enter _ :: es => balanced (depth + 1) es
  | 0, .leave _ :: _ => false
  | depth + 1, .leave _ :: es => balanced depth es

/-- The events are those of a forest, then of another behind each rule that closes. -/
def Nested : Nat → List Event → Prop
  | 0, es => ∃ ts, es = Outline.eventsOf ts
  | depth + 1, es => ∃ ts s rest, es = Outline.eventsOf ts ++ .leave s :: rest ∧ Nested depth rest

theorem Nested.cons {depth : Nat} {es : List Event} (t : Outline) (h : Nested depth es) :
    Nested depth (t.events ++ es) := by
  cases depth with
  | zero =>
    obtain ⟨ts, rfl⟩ := h
    exact ⟨t :: ts, rfl⟩
  | succ depth =>
    obtain ⟨ts, s, rest, rfl, hrest⟩ := h
    exact ⟨t :: ts, s, rest, by rw [Outline.eventsOf, List.append_assoc], hrest⟩

theorem nested_of_balanced {depth : Nat} {es : List Event} (h : balanced depth es = true) : Nested depth es := by
  induction es generalizing depth with
  | nil =>
    cases depth with
    | zero => exact ⟨[], rfl⟩
    | succ => cases h
  | cons e es ih =>
    cases e with
    | leaf s l => exact (ih h).cons (.leaf s l)
    | enter kind =>
      -- what follows closes the rule before it goes on
      have hes : balanced (depth + 1) es = true := h
      obtain ⟨ts, s, rest, rfl, hrest⟩ := ih hes
      have hframe := hrest.cons (.frame kind ts s)
      rwa [Outline.events, List.cons_append, List.append_assoc, List.singleton_append] at hframe
    | leave s =>
      cases depth with
      | zero => cases h
      | succ depth => exact ⟨[], s, es, rfl, ih h⟩

theorem exists_outlines {es : List Event} (h : balanced 0 es = true) : ∃ ts, Outline.eventsOf ts = es := by
  obtain ⟨ts, rfl⟩ := nested_of_balanced h
  exact ⟨ts, rfl⟩

end Event

/-! ### What a forest leaves -/

def FrameKind.isExplained : FrameKind → Bool
  | explained _ => true
  | _ => false

namespace Outline

/-- Whether an answer is reported inside the given rules, innermost first: nothing is below an
explained rule, and an answer other than a failure only below a negation. -/
def reported (around : List FrameKind) (s : Status) : Bool :=
  !around.any FrameKind.isExplained && (s.isFail || (around.contains .not && !s.isIgnore))

/-- Whether an answer speaks against its member inside the given rules. -/
def accuses (around : List FrameKind) (s : Status) : Bool :=
  s.isFail || (around.count .not % 2 == 1 && s.isSuccess)

/-- Whether it is a leaf that applies; below a negation such a leaf is worded the other way round. -/
def isWorded : Outline → Bool
  | leaf s _ => !s.isIgnore
  | frame .. => false

def isLeaf : Outline → Bool
  | leaf .. => true
  | frame .. => false

/-- The text of a rule from the texts inside; `inline` tells whether a leaf stands for the word NOT. -/
def compose (l : Locale) (kind : FrameKind) (outermost inline : Bool) (parts : List String) : Option String :=
  match kind with
  | .explained message => some (l.word message)
  | kind =>
    let kept := if kind = .any then parts.eraseDups else parts
    if kept.isEmpty then none
    else
      let joined := (" " ++ l.word (Reporter.joint kind) ++ " ").intercalate kept
      let enclosed := if 1 < kept.length && !outermost then "(" ++ joined ++ ")" else joined
      some (if kind = .not && !inline then l.word "NOT" ++ " " ++ enclosed else enclosed)

mutual

/-- The text that is left inside the rules `around`; `inline` tells which outlines directly below a
negation stand for the word NOT. -/
def part? (l : Locale) (inline : Outline → Bool) (around : List FrameKind) : Outline → Option String
  | leaf s q => if reported around s then some (l.leafText (around.head? == some .not) q) else none
  | frame kind inner s =>
    if reported around s then
      compose l kind around.isEmpty (inner.any inline) (parts l inline (kind :: around) inner)
    else none

def parts (l : Locale) (inline : Outline → Bool) (around : List FrameKind) : List Outline → List String
  | [] => []
  | t :: ts => (part? l inline around t).toList ++ parts l inline around ts

end

mutual

/-- The members that leaves speak against, in order. -/
def accused (around : List FrameKind) : Outline → List Member
  | leaf s q => if accuses around s then [q.member] else []
  | frame kind inner _ => accusedOf (kind :: around) inner

def accusedOf (around : List FrameKind) : List Outline → List Member
  | [] => []
  | t :: ts => accused around t ++ accusedOf around ts

end

/-- The paths of members other than the root, each once. -/
def listed (members : List Member) : List String :=
  ((members.filter (!·.isRoot)).map Member.dotted).eraseDups

/-- What is left of a forest. -/
def report (l : Locale) (inline : Outline → Bool) (ts : List Outline) : Report where
  text := "; ".intercalate (parts l inline [] ts)
  failed := listed (accusedOf [] ts)

variable {l : Locale} {inline : Outline → Bool} {around : List FrameKind} {s : Status}

theorem parts_append (ts us : List Outline) :
    parts l inline around (ts ++ us) = parts l inline around ts ++ parts l inline around us := by
  induction ts with
  | nil => rfl
  | cons t ts ih => rw [List.cons_append, parts, parts, ih, List.append_assoc]

theorem parts_singleton (t : Outline) : parts l inline around [t] = (part? l inline around t).toList := by
  rw [parts, parts, List.append_nil]

theorem parts_flatMap {α : Type} (xs : List α) (f : α → List Outline) :
    parts l inline around (xs.flatMap f) = xs.flatMap fun x => parts l inline around (f x) := by
  induction xs with
  | nil => rfl
  | cons x xs ih => rw [List.flatMap_cons, List.flatMap_cons, parts_append, ih]

/-! ### What is reported -/

theorem reported_ne_ignore (h : reported around s = true) : s ≠ .ignore := by
  rintro rfl
  simp [reported, Status.isFail, Status.isIgnore] at h

theorem plain_of_reported (h : reported around s = true) : around.any FrameKind.isExplained = false := by
  rw [reported, Bool.and_eq_true, Bool.not_eq_true'] at h
  exact h.1

theorem reported_nil : reported [] s = s.isFail := by
  simp [reported]

theorem reported_cons {kind : FrameKind} (hkind : kind.isExplained = false) (h : reported around s = true) :
    reported (kind :: around) s = true := by
  rw [reported, Bool.and_eq_true, Bool.or_eq_true, Bool.and_eq_true] at h ⊢
  refine ⟨by rw [List.any_cons, hkind]; exact h.1, h.2.imp_right fun hin => ⟨?_, hin.2⟩⟩
  rw [List.contains_cons, hin.1, Bool.or_true]

/-- Below a negation all answers that apply are reported. -/
theorem reported_not {s' : Status} (h : reported around s' = true) (hs : s ≠ .ignore) :
    reported (.not :: around) s = true := by
  have hplain := plain_of_reported h
  cases s with
  | ignore => exact absurd rfl hs
  | success | fail => simp [reported, hplain, FrameKind.isExplained, Status.isFail, Status.isIgnore]

theorem compose_congr {kind : FrameKind} {outermost b b' : Bool} {texts : List String}
    (h : kind = .not → b = b') : compose l kind outermost b texts = compose l kind outermost b' texts := by
  cases kind with
  | not => rw [h rfl]
  | and | or | any | all | explained => rfl

end Outline

/-! ### Reporters -/

theorem foldl_keep_new {xs : List String} :
    xs.foldl (fun seen x => if seen.contains x then seen else seen ++ [x]) [] = xs.eraseDups := by
  induction xs using List.reverseRecOn with
  | nil => rfl
  | append_singleton xs x ih =>
    rw [List.foldl_append, List.foldl_cons, List.foldl_nil, ih, List.eraseDups_append]
    by_cases hx : x ∈ xs
    · simp [hx, List.removeAll]
    · simp [hx, List.removeAll, List.eraseDups_cons]

namespace Reporter
variable {r : Reporter} {s : Status}

def hear (r : Reporter) : Event → Reporter
  | .enter kind => r.enter kind
  | .leaf s l => r.leaf s l
  | .leave s => r.leave s

def hearAll (r : Reporter) (es : List Event) : Reporter :=
  es.foldl hear r

/-- The kinds of the open rules, innermost first. -/
def around (r : Reporter) : List FrameKind :=
  r.frames.map Frame.kind

/-- The counters count the open rules. -/
structure Sound (r : Reporter) : Prop where
  negations : r.negations = r.around.count .not
  explained : r.explained = r.around.countP FrameKind.isExplained

/-- Notes the paths of members. -/
def noted (failed : List String) (m : Member) : List String :=
  if m.isRoot || failed.contains m.dotted then failed else failed ++ [m.dotted]

/-- The reporter with more texts in the innermost open rule, where `inline` tells whether a leaf has
been worded the other way round, and with more failing members. -/
def absorb (r : Reporter) (texts : List String) (inline : Bool) (accused : List Member) : Reporter :=
  let failed := accused.foldl noted r.failed
  match r.frames with
  | frame :: rest =>
    { r with
      failed
      frames := { frame with parts := frame.parts ++ texts, negated := frame.negated || inline } :: rest }
  | [] => { r with failed, output := r.output ++ texts }

theorem sound_start (l : Locale) : Sound { locale := l } :=
  ⟨rfl, rfl⟩

theorem absorb_nil (r : Reporter) : r.absorb [] false [] = r := by
  obtain ⟨locale, frames, _, _, _, _⟩ := r
  cases frames <;> simp [absorb]

theorem absorb_absorb (r : Reporter) (texts texts' : List String) (inline inline' : Bool) (ms ms' : List Member) :
    (r.absorb texts inline ms).absorb texts' inline' ms' =
      r.absorb (texts ++ texts') (inline || inline') (ms ++ ms') := by
  obtain ⟨locale, frames, _, _, _, _⟩ := r
  cases frames <;> simp [absorb, Bool.or_assoc]

@[simp] theorem around_absorb (r : Reporter) (texts : List String) (inline : Bool) (ms : List Member) :
    (r.absorb texts inline ms).around = r.around := by
  obtain ⟨locale, frames, _, _, _, _⟩ := r
  cases frames <;> rfl

@[simp] theorem locale_absorb (r : Reporter) (texts : List String) (inline : Bool) (ms : List Member) :
    (r.absorb texts inline ms).locale = r.locale := by
  obtain ⟨locale, frames, _, _, _, _⟩ := r
  cases frames <;> rfl

theorem Sound.absorb (h : r.Sound) (texts : List String) (inline : Bool) (ms : List Member) :
    (r.absorb texts inline ms).Sound := by
  obtain ⟨locale, frames, _, _, _, _⟩ := r
  cases frames <;> exact ⟨h.negations, h.explained⟩

@[simp] theorem around_enter (r : Reporter) (kind : FrameKind) : (r.enter kind).around = kind :: r.around := by
  cases kind <;> rfl

@[simp] theorem locale_enter (r : Reporter) (kind : FrameKind) : (r.enter kind).locale = r.locale := by
  cases kind <;> rfl

theorem Sound.enter (h : r.Sound) (kind : FrameKind) : (r.enter kind).Sound := by
  cases kind with
  | not => exact ⟨by rw [around_enter, List.count_cons_self, ← h.negations]; rfl, h.explained⟩
  | explained message =>
    exact ⟨h.negations, by rw [around_enter, List.countP_cons_of_pos rfl, ← h.explained]; rfl⟩
  | and | or | any | all => exact ⟨h.negations, h.explained⟩

/-! ### Leaves -/

theorem counts_eq (h : r.Sound) (s : Status) : r.counts s = Outline.accuses r.around s := by
  rw [counts, Outline.accuses, h.negations]

theorem suppressed_eq (h : r.Sound) (s : Status) :
    (0 < r.explained || !r.reportable s) = !Outline.reported r.around s := by
  have hnot : decide (0 < r.around.count .not) = r.around.contains .not := by
    rw [Bool.eq_iff_iff]
    simp [List.count_pos_iff]
  have hexplained : decide (0 < r.around.countP FrameKind.isExplained) = r.around.any FrameKind.isExplained := by
    rw [Bool.eq_iff_iff]
    simp [List.countP_pos_iff]
  rw [reportable, h.negations, h.explained, Outline.reported, hnot, hexplained, Bool.not_and, Bool.not_not]

theorem inNegation_eq (r : Reporter) : r.inNegation = (r.around.head? == some .not) := by
  obtain ⟨locale, frames, _, _, _, _⟩ := r
  cases frames <;> rfl

theorem note_eq_absorb (r : Reporter) (m : Member) : r.note m = r.absorb [] false [m] := by
  obtain ⟨locale, frames, _, _, failed, _⟩ := r
  cases frames <;> simp only [note, absorb, List.foldl, noted] <;> split <;> simp

theorem emit_eq_absorb (r : Reporter) (text : String) : r.emit text = r.absorb [text] false [] := by
  obtain ⟨locale, frames, _, _, _, _⟩ := r
  cases frames <;> simp [emit, absorb]

theorem markNegated_eq_absorb (h : r.inNegation = true) : r.markNegated = r.absorb [] true [] := by
  obtain ⟨locale, frames, _, _, _, _⟩ := r
  cases frames with
  | nil => cases h
  | cons => simp [markNegated, absorb]

theorem leaf_eq_absorb (h : r.Sound) (s : Status) (l : Leaf) :
    r.leaf s l = r.absorb
      (if Outline.reported r.around s then [r.locale.leafText (r.around.head? == some .not) l] else [])
      (r.around.head? == some .not && Outline.reported r.around s)
      (if Outline.accuses r.around s then [l.member] else []) := by
  have hnote : (if r.counts s then r.note l.member else r) =
      r.absorb [] false (if Outline.accuses r.around s then [l.member] else []) := by
    rw [counts_eq h]
    split
    · exact note_eq_absorb r _
    · exact (absorb_nil r).symm
  generalize hq : r.absorb [] false (if Outline.accuses r.around s then [l.member] else []) = q at hnote
  have hq' : q.Sound := hq ▸ h.absorb ..
  have haround : q.around = r.around := by rw [← hq, around_absorb]
  have hlocale : q.locale = r.locale := by rw [← hq, locale_absorb]
  rw [leaf, hnote]
  simp only [suppressed_eq hq', inNegation_eq, haround, hlocale]
  cases Outline.reported r.around s with
  | false => simp [hq]
  | true =>
    cases hnot : r.around.head? == some .not with
    | false => simp [emit_eq_absorb, ← hq, absorb_absorb]
    | true =>
      have hin : q.inNegation = true := by rw [inNegation_eq, haround, hnot]
      rw [markNegated_eq_absorb hin, ← hq]
      simp [emit_eq_absorb, absorb_absorb]

/-! ### Rules that close -/

theorem dropRepeats_eq (texts : List String) : dropRepeats texts = texts.eraseDups :=
  foldl_keep_new

theorem render_eq (l : Locale) (outermost : Bool) (kind : FrameKind) (texts : List String) (inline : Bool) :
    render l outermost { kind, parts := texts, negated := inline } =
      Outline.compose l kind outermost inline texts := by
  cases kind with
  | explained message => rfl
  | and | or | not | all =>
    rcases texts with _ | ⟨part, _ | ⟨next, texts⟩⟩
    · rfl
    · cases inline <;> simp [render, Outline.compose]
    · cases inline <;> cases outermost <;> simp [render, Outline.compose]
  | any =>
    simp only [render, Outline.compose, dropRepeats_eq, if_true]
    rcases texts.eraseDups with _ | ⟨part, _ | ⟨next, kept⟩⟩
    · rfl
    · simp
    · cases outermost <;> simp

/-- A rule that opens, takes in what is inside and closes leaves the failing members and its own
text, if that is reported and there is one. -/
theorem leave_absorb_enter_eq (r : Reporter) (kind : FrameKind) (texts : List String) (inline : Bool)
    (ms : List Member) (s : Status) : ((r.enter kind).absorb texts inline ms).leave s =
      if 0 < (r.absorb [] false ms).explained || !(r.absorb [] false ms).reportable s then r.absorb [] false ms
      else
        (render r.locale r.frames.isEmpty { kind, parts := texts, negated := inline }).elim
          (r.absorb [] false ms) (r.absorb [] false ms).emit := by
  cases hrender : render r.locale r.frames.isEmpty { kind, parts := texts, negated := inline } with
  | none | some text =>
    obtain ⟨locale, frames, negations, explained, failed, output⟩ := r
    cases frames <;> cases kind <;> simp_all [enter, absorb, leave]

theorem leave_absorb_enter (h : r.Sound) (kind : FrameKind) (texts : List String) (inline : Bool) (ms : List Member)
    (s : Status) : ((r.enter kind).absorb texts inline ms).leave s =
      r.absorb (if Outline.reported r.around s then
        (Outline.compose r.locale kind r.around.isEmpty inline texts).toList else []) false ms := by
  have houtermost : r.frames.isEmpty = r.around.isEmpty := by
    rw [around, List.isEmpty_map]
  rw [leave_absorb_enter_eq, suppressed_eq (h.absorb [] false ms), around_absorb, render_eq, houtermost]
  cases Outline.reported r.around s with
  | false => simp
  | true =>
    cases Outline.compose r.locale kind r.around.isEmpty inline texts with
    | none => simp
    | some text => simp [emit_eq_absorb, absorb_absorb]

end Reporter

/-! ### Forests that are told -/

namespace Outline
variable {around : List FrameKind} {s : Status}

/-- Whether it is a leaf that is reported inside the given rules. -/
def isSpoken (around : List FrameKind) : Outline → Bool
  | leaf s _ => reported around s
  | frame .. => false

/-- Whether a leaf has been worded the other way round for the innermost of the rules around it. -/
def hasInline (around : List FrameKind) (ts : List Outline) : Bool :=
  around.head? == some .not && ts.any (isSpoken around)

theorem hasInline_cons (around : List FrameKind) (t : Outline) (ts : List Outline) :
    hasInline around (t :: ts) = (hasInline around [t] || hasInline around ts) := by
  simp [hasInline, Bool.and_or_distrib_left]

/-- Directly below a negation that is reported, the leaves that are reported are those that apply. -/
theorem hasInline_not (h : reported around s = true) (ts : List Outline) :
    hasInline (.not :: around) ts = ts.any isWorded := by
  have hplain := plain_of_reported h
  have hspoken : isSpoken (.not :: around) = isWorded := by
    funext t
    cases t with
    | frame => rfl
    | leaf s l =>
      cases s <;>
        simp [isSpoken, isWorded, reported, hplain, Status.isFail, Status.isIgnore, FrameKind.isExplained]
  rw [hasInline, hspoken]
  rfl

open Reporter

mutual

theorem hear_events : ∀ (t : Outline) {r : Reporter}, r.Sound →
    r.hearAll t.events = r.absorb (part? r.locale isWorded r.around t).toList (hasInline r.around [t])
      (accused r.around t)
  | leaf s l, r, h => by
    show r.leaf s l = _
    rw [leaf_eq_absorb h, part?, accused]
    cases hrep : reported r.around s <;> simp [hasInline, isSpoken, hrep]
  | frame kind inner s, r, h => by
    have hinner := hear_eventsOf inner (h.enter kind)
    have hall : r.hearAll (frame kind inner s).events = ((r.enter kind).hearAll (eventsOf inner)).leave s := by
      rw [events, hearAll, List.foldl_cons, List.foldl_append]; rfl
    rw [hall, hinner, leave_absorb_enter h, around_enter, locale_enter, part?, accused]
    have hnone : hasInline r.around [frame kind inner s] = false := by
      rw [hasInline, List.any_cons, List.any_nil, isSpoken, Bool.or_self, Bool.and_false]
    rw [hnone]
    cases hrep : reported r.around s with
    | false => rfl
    | true =>
      have hinline : kind = .not → hasInline (kind :: r.around) inner = inner.any isWorded := fun hkind => by
        rw [hkind]
        exact hasInline_not hrep inner
      rw [if_pos rfl, if_pos rfl, compose_congr hinline]

theorem hear_eventsOf : ∀ (ts : List Outline) {r : Reporter}, r.Sound →
    r.hearAll (eventsOf ts) = r.absorb (parts r.locale isWorded r.around ts) (hasInline r.around ts)
      (accusedOf r.around ts)
  | [], r, _ => by
    rw [parts, accusedOf, hasInline, List.any_nil, Bool.and_false]
    exact (absorb_nil r).symm
  | t :: ts, r, h => by
    have hall : r.hearAll (eventsOf (t :: ts)) = (r.hearAll t.events).hearAll (eventsOf ts) := by
      rw [eventsOf, hearAll, List.foldl_append]; rfl
    rw [hall, hear_events t h, hear_eventsOf ts (h.absorb ..), around_absorb, locale_absorb, absorb_absorb, parts,
      accusedOf, hasInline_cons _ t ts]

end

theorem foldl_noted (ms : List Member) : ms.foldl noted [] = listed ms := by
  have hstep : ∀ seen, ms.foldl noted seen = ((ms.filter (!·.isRoot)).map Member.dotted).foldl
      (fun seen x => if seen.contains x then seen else seen ++ [x]) seen := by
    induction ms with
    | nil => exact fun _ => rfl
    | cons m ms ih =>
      intro seen
      cases hm : m.isRoot <;> simp [noted, hm, ih]
  rw [hstep, foldl_keep_new, listed]

/-- A reporter that is told a forest reports what the forest leaves. -/
theorem finish_hearAll (l : Locale) (ts : List Outline) :
    (hearAll { locale := l } (eventsOf ts)).finish = report l isWorded ts := by
  rw [hear_eventsOf ts (sound_start l), report, ← foldl_noted]
  rfl

end Outline

/-- Whatever a reporter is told, if all rules close in the end it has been told a forest, and its
report is what the forest leaves. -/
theorem Reporter.finish_balanced (l : Locale) (es : List Event) (h : Event.balanced 0 es = true) :
    (∃ ts, Outline.eventsOf ts = es) ∧
    ∀ ts, Outline.eventsOf ts = es →
      (hearAll { locale := l } es).finish = Outline.report l Outline.isWorded ts := by
  refine ⟨Event.exists_outlines h, ?_⟩
  rintro ts rfl
  exact Outline.finish_hearAll l ts

/-- One of two prices is too low, twice for the same reason; a name is empty below an explained rule;
and of a negation the leaf is worded the other way round. -/
theorem Reporter.finish_balanced_order :
    let price (i : Nat) : Leaf := .check .member
      ⟨{ path := [.name "prices", .index i], display? := some [.name "prices", .expand (.each .any)] }, none,
        .compare .gt, .value (.int 5)⟩
    let name : Leaf := .presence { path := [.name "name"] } none true
    let code : Leaf := .check .member ⟨{ path := [.name "code"] }, none, .compare .eq, .value (.int 7)⟩
    let inner : List Outline :=
      [.frame .any [.leaf .fail (price 0), .leaf .ignore (price 1), .leaf .fail (price 2)] .fail,
       .frame (.explained "a name is needed") [.leaf .fail name] .fail,
       .frame .not [.leaf .success code] .fail]
    let ts : List Outline := [.frame .or inner .fail]
    Event.balanced 0 (Outline.eventsOf ts) = true ∧
      (hearAll { locale := .english } (Outline.eventsOf ts)).finish =
        { text := "at least one element of prices must be greater than 5 OR a name is needed OR " ++
            "code must be not equal to 7"
          failed := ["prices.0", "prices.2", "name", "code"] } := by
  intro price name code inner ts
  have h : Event.balanced 0 (Outline.eventsOf ts) = true := by decide
  refine ⟨h, ?_⟩
  rw [(finish_balanced .english _ h).2 ts rfl]
  decide

/-- Below a negation a leaf that does not apply is not reported, so it does not stand for the word
NOT either. -/
theorem Reporter.finish_ignored_leaf :
    let leaf (name : String) : Leaf := .check .member ⟨{ path := [.name name] }, none, .compare .gt, .value (.int 1)⟩
    let ts : List Outline :=
      [.frame .not [.leaf .ignore (leaf "a"), .frame .and [.leaf .fail (leaf "b")] .fail] .fail]
    Event.balanced 0 (Outline.eventsOf ts) = true ∧
      (hearAll { locale := .english } (Outline.eventsOf ts)).finish.text = "NOT b must be greater than 1" ∧
      (Outline.report .english Outline.isLeaf ts).text = "b must be greater than 1" := by
  decide

end Conform
