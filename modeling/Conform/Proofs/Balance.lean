import Conform.Proofs.Families
import Conform.Proofs.Outline
import Conform.Validator

/-!
# The stack of a reporter

The counters of a reporter count its open rules whatever it is told (`Reporter.Sound.hearAll`), so
no rule that closes takes anything from a counter at zero. A pass opens no rule that it does not
close, wherever it breaks off: it leaves a reporter that has taken in texts and failing members
(`Pass.Absorbs`), with the same open rules around them.
-/

namespace Conform

/-! ### Whatever is told -/

namespace Reporter
variable {r : Reporter}

theorem exists_note_eq_absorb (r : Reporter) (noted : Bool) (m : Member) :
    ∃ ms, (if noted then r.note m else r) = r.absorb [] false ms := by
  cases noted with
  | true => exact ⟨[m], r.note_eq_absorb m⟩
  | false => exact ⟨[], r.absorb_nil.symm⟩

theorem exists_leaf_eq_absorb (r : Reporter) (s : Status) (l : Leaf) :
    ∃ texts inline ms, r.leaf s l = r.absorb texts inline ms := by
  obtain ⟨ms, hms⟩ := r.exists_note_eq_absorb (r.counts s) l.member
  rw [leaf, hms]
  dsimp only
  split
  · exact ⟨[], false, ms, rfl⟩
  · split
    next hin =>
      rw [markNegated_eq_absorb hin, emit_eq_absorb, absorb_absorb, absorb_absorb]
      exact ⟨_, _, _, rfl⟩
    next =>
      rw [emit_eq_absorb, absorb_absorb]
      exact ⟨_, _, _, rfl⟩

/-- The reporter without the innermost open rule. -/
def popped (r : Reporter) : Reporter :=
  match r.frames with
  | [] => r
  | frame :: rest =>
    match frame.kind with
    | .not => { r with frames := rest, negations := r.negations - 1 }
    | .explained _ => { r with frames := rest, explained := r.explained - 1 }
    | _ => { r with frames := rest }

theorem exists_leave_eq_absorb (r : Reporter) (s : Status) : ∃ texts, r.leave s = r.popped.absorb texts false [] := by
  obtain ⟨locale, frames, negations, explained, failed, output⟩ := r
  rcases frames with _ | ⟨frame, rest⟩
  · exact ⟨[], (absorb_nil _).symm⟩
  generalize hr : Reporter.mk locale (frame :: rest) negations explained failed output = r
  have hleave : r.leave s = if 0 < r.popped.explained || !r.popped.reportable s then r.popped
      else (render locale rest.isEmpty frame).elim r.popped r.popped.emit := by
    obtain ⟨kind, parts, negated⟩ := frame
    subst hr
    cases hrender : render locale rest.isEmpty { kind, parts, negated } <;>
      cases kind <;> simp only [leave, popped, hrender] <;> rfl
  rw [hleave]
  split
  · exact ⟨[], (absorb_nil _).symm⟩
  · cases render locale rest.isEmpty frame with
    | none => exact ⟨[], (absorb_nil _).symm⟩
    | some text => exact ⟨[text], emit_eq_absorb _ text⟩

@[simp] theorem around_popped (r : Reporter) : r.popped.around = r.around.tail := by
  obtain ⟨locale, frames, negations, explained, failed, output⟩ := r
  rcases frames with _ | ⟨⟨kind, _, _⟩, rest⟩
  · rfl
  · cases kind <;> rfl

@[simp] theorem around_leave (r : Reporter) (s : Status) : (r.leave s).around = r.around.tail := by
  obtain ⟨texts, h⟩ := r.exists_leave_eq_absorb s
  rw [h, around_absorb, around_popped]

/-- A counter goes down only if it counts the rule that closes. -/
theorem Sound.popped (h : r.Sound) : r.popped.Sound := by
  have hnegations := h.negations
  have hexplained := h.explained
  obtain ⟨locale, frames, negations, explained, failed, output⟩ := r
  rcases frames with _ | ⟨⟨kind, parts, negated⟩, rest⟩
  · exact h
  simp only [around, List.map_cons, List.count_cons, List.countP_cons] at hnegations hexplained
  cases kind with
  | not => exact ⟨Nat.sub_eq_of_eq_add hnegations, hexplained⟩
  | explained message => exact ⟨hnegations, Nat.sub_eq_of_eq_add hexplained⟩
  | and | or | any | all => exact ⟨hnegations, hexplained⟩

theorem Sound.leave (h : r.Sound) (s : Status) : (r.leave s).Sound := by
  obtain ⟨texts, hleave⟩ := r.exists_leave_eq_absorb s
  exact hleave ▸ h.popped.absorb ..

theorem Sound.leaf (h : r.Sound) (s : Status) (l : Leaf) : (r.leaf s l).Sound := by
  rw [leaf_eq_absorb h]
  exact h.absorb ..

/-- The counters count the open rules whatever is told, also when rules close that are not open. -/
theorem Sound.hearAll (h : r.Sound) (events : List Event) : (r.hearAll events).Sound := by
  induction events generalizing r with
  | nil => exact h
  | cons event events ih =>
    cases event with
    | enter kind => exact ih (h.enter kind)
    | leaf s l => exact ih (h.leaf s l)
    | leave s => exact ih (h.leave s)

/-- Closing a rule takes from the counters what it counts there, and that has been counted. -/
theorem Sound.counters_leave (h : r.Sound) (s : Status) :
    (r.leave s).negations + (r.around.take 1).count .not = r.negations ∧
      (r.leave s).explained + (r.around.take 1).countP FrameKind.isExplained = r.explained := by
  have hleft := h.leave s
  rw [hleft.negations, hleft.explained, around_leave, h.negations, h.explained, Nat.add_comm, ← List.count_append,
    Nat.add_comm, ← List.countP_append, ← List.drop_one, List.take_append_drop]
  exact ⟨rfl, rfl⟩

/-- What has grown around the same open rules. -/
structure Grown (r r' : Reporter) : Prop where
  depth : r'.depth = r.depth
  negations : r'.negations = r.negations
  explained : r'.explained = r.explained
  /-- The open rules, their texts apart, are the same, and those around the innermost one have the
  same texts. -/
  around : r'.around = r.around
  outer : r'.frames.tail = r.frames.tail
  /-- Texts are added to the innermost open rule, or to the output where no rule is open. -/
  parts : ∀ frame ∈ r.frames.head?, ∀ frame' ∈ r'.frames.head?, frame.parts <+: frame'.parts
  output : r.output <+: r'.output ∧ (r.frames ≠ [] → r'.output = r.output)
  failed : r.failed <+: r'.failed

theorem failed_absorb (r : Reporter) (texts : List String) (inline : Bool) (ms : List Member) :
    (r.absorb texts inline ms).failed = ms.foldl noted r.failed := by
  obtain ⟨locale, frames, negations, explained, failed, output⟩ := r
  cases frames <;> rfl

theorem prefix_noted (ms : List Member) (failed : List String) : failed <+: ms.foldl noted failed := by
  induction ms generalizing failed with
  | nil => exact List.prefix_rfl
  | cons m ms ih =>
    refine List.IsPrefix.trans ?_ (ih (noted failed m))
    rw [noted]
    split
    · exact List.prefix_rfl
    · exact List.prefix_append ..

theorem grown_absorb (r : Reporter) (texts : List String) (inline : Bool) (ms : List Member) :
    r.Grown (r.absorb texts inline ms) := by
  have hfailed : r.failed <+: (r.absorb texts inline ms).failed := by
    rw [failed_absorb]
    exact prefix_noted ms r.failed
  obtain ⟨locale, frames, negations, explained, failed, output⟩ := r
  cases frames with
  | nil => exact ⟨rfl, rfl, rfl, rfl, rfl, nofun, ⟨List.prefix_append .., fun h => absurd rfl h⟩, hfailed⟩
  | cons frame rest =>
    have hparts : ∀ f ∈ (frame :: rest).head?, ∀ f' ∈ (some { frame with
        parts := frame.parts ++ texts, negated := frame.negated || inline }), f.parts <+: f'.parts := by
      rintro _ ⟨⟩ _ ⟨⟩
      exact List.prefix_append ..
    exact ⟨rfl, rfl, rfl, rfl, rfl, hparts, ⟨List.prefix_rfl, fun _ => rfl⟩, hfailed⟩

end Reporter

/-! ### Whatever is run -/

theorem Reporter.exists_leave_enter_eq_absorb (r : Reporter) (kind : FrameKind) (texts : List String) (inline : Bool)
    (ms : List Member) (s : Status) :
    ∃ texts', ((r.enter kind).absorb texts inline ms).leave s = r.absorb texts' false ms := by
  rw [leave_absorb_enter_eq]
  split
  · exact ⟨[], rfl⟩
  · cases render r.locale r.frames.isEmpty { kind, parts := texts, negated := inline } with
    | none => exact ⟨[], rfl⟩
    | some text =>
      refine ⟨[text], ?_⟩
      rw [Option.elim_some, emit_eq_absorb, absorb_absorb, List.nil_append, List.append_nil]
      rfl

/-- Whatever it finds, a pass leaves a reporter that has only taken something in. -/
def Pass.Absorbs (α : Type) (x : Unit → Pass α) : Prop :=
  ∀ rec, ∃ texts inline ms, ((x ()).run rec).2.reporter = rec.reporter.absorb texts inline ms

theorem Pass.layered_absorbs : Pass.Layered Pass.Absorbs where
  pure _ rec := ⟨[], false, [], rec.reporter.absorb_nil.symm⟩
  bind := by
    intro α β x f hx hf rec
    obtain ⟨texts, inline, ms, hleft⟩ := hx rec
    obtain ⟨texts', inline', ms', hthen⟩ := hf ((x ()).run rec).1 ((x ()).run rec).2
    refine ⟨texts ++ texts', inline || inline', ms ++ ms', ?_⟩
    rw [← Reporter.absorb_absorb, ← hleft]
    exact hthen
  trace _ rec := ⟨[], false, [], rec.reporter.absorb_nil.symm⟩
  leaf s l rec := rec.reporter.exists_leaf_eq_absorb s l
  frame := by
    intro kind x hx rec
    let entered : Record := { rec with reporter := rec.reporter.enter kind }
    obtain ⟨texts, inline, ms, hleft⟩ := hx entered
    obtain ⟨texts', hclosed⟩ := rec.reporter.exists_leave_enter_eq_absorb kind texts inline ms ((x ()).run entered).1
    refine ⟨texts', false, ms, ?_⟩
    rw [← hclosed, ← hleft]
    rfl

theorem Chain.carry_absorbs (c : Chain) : Chain.Carry Pass.Absorbs (fun _ => c.layers) c.terms := by
  have hask : ∀ cur l, Pass.Absorbs _ fun _ => c.ask cur l := Pass.layered_absorbs.askThrough c.layers
  refine { composes := Pass.layered_absorbs.toComposes, passes := ⟨c, fun _ _ _ => rfl⟩, ask := hask, around := ?_ }
  intro cur b body hbody
  exact Pass.layered_absorbs.aroundThrough hask c.layers hbody cur b

/-- The counters of a reporter count its open rules whatever it is told. Whatever is asked of a chain,
and whatever the reporter has been told before, it is left as it was but for texts and failing members
at the end of those that were there. So no rule is open after a pass. -/
theorem Reporter.stack_kept :
    (∀ (locale : Locale) (events : List Event) (s : Status),
      let r := Reporter.hearAll { locale } events
      r.Sound ∧ (r.leave s).negations + (r.around.take 1).count .not = r.negations ∧
        (r.leave s).explained + (r.around.take 1).countP FrameKind.isExplained = r.explained) ∧
    (∀ (c : Chain) (q : Query) (cur : Cursor) (rec : Record),
      rec.reporter.Grown ((q.run c cur).run rec).2.reporter) ∧
    ∀ (v : Validator) (f : Filter) (o : Object),
      (((v.chain f).evaluate v.rule o).run { reporter := { locale := v.locale } }).2.reporter.depth = 0 := by
  have hgrown : ∀ (c : Chain) (q : Query) (cur : Cursor) (rec : Record),
      rec.reporter.Grown ((q.run c cur).run rec).2.reporter := by
    intro c q cur rec
    obtain ⟨texts, inline, ms, hleft⟩ := c.carry_absorbs.query q cur rec
    exact hleft ▸ rec.reporter.grown_absorb texts inline ms
  refine ⟨?_, hgrown, ?_⟩
  · intro locale events s r
    have hsound := (sound_start locale).hearAll events
    exact ⟨hsound, hsound.counters_leave s⟩
  · intro v f o
    exact (hgrown (v.chain f) (.rule v.rule .root) (.start o) _).depth

end Conform
