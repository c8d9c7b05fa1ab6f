import Conform.Proofs.Families

/-!
# Layers that only watch

A layer that hands on every call can be put anywhere into a chain: no answer changes, nor what the
other layers write (`Layer.Watches.sameBut_query`). Where all layers only watch, they see one forest
of calls (`Query.run_watched`). Each recorder enters a call before those behind it and leaves it
after them, and the calls in between go through all recorders again.
-/

namespace Conform

namespace Layer

/-- Whether all that a layer does is to hand calls on and to write down what it sees. -/
def Watches : Layer → Prop
  | recorder _ | reporting => True
  | handler k => (∀ t cur l, k.ask t cur l = .forward (cur, l)) ∧
      (∀ t cur b, k.around t cur b = .forward (.follow cur)) ∧ ∀ m s, k.passes? m s = none
  | single _ | candidate _ | guard _ => False

/-- The name under which a layer records calls. -/
def recorder? : Layer → Option String
  | recorder name => some name
  | _ => none

theorem Watches.passes?_eq {layer : Layer} (h : layer.Watches) (m : Member) (s : Status) :
    layer.passes? m s = none := by
  cases layer with
  | recorder | reporting | single | guard => rfl
  | handler k => exact h.2.2 m s
  | candidate => cases h

end Layer

namespace Trace

/-- Who has written an entry. -/
def recorder : Trace → String
  | enter name .. | leave name .. => name

/-- What an entry says about a call whichever way it goes. -/
def call : Trace → String × String × String
  | enter name kind member .. | leave name kind member _ => (name, kind, member)

/-- Whether every call is left by the recorder that has entered it, those inside it first; the calls
that are open already are given innermost first. -/
def closes : List (String × String × String) → List Trace → Bool
  | opened, [] => opened.isEmpty
  | opened, t@(.enter ..) :: ts => closes (t.call :: opened) ts
  | opened, t@(.leave ..) :: ts => opened.head? == some t.call && closes opened.tail ts

end Trace

/-! ### One more layer -/

/-- Whether an entry is written by the layer. -/
def Layer.writes (layer : Layer) (t : Trace) : Bool :=
  layer.recorder? == some t.recorder

/-- The records agree but for what the layer writes. -/
structure Record.SameBut (layer : Layer) (rec rec' : Record) : Prop where
  traces : rec.traces.filter (!layer.writes ·) = rec'.traces.filter (!layer.writes ·)
  reporter : layer.role ≠ .reporter → rec.reporter = rec'.reporter

namespace Pass
variable {α β : Type} {layer : Layer}

/-- Two passes answer the same, and leave the same but for what the layer writes. -/
def SameBut (layer : Layer) (x y : Pass α) : Prop :=
  ∀ rec rec', rec.SameBut layer rec' →
    (x.run rec).1 = (y.run rec').1 ∧ (x.run rec).2.SameBut layer (y.run rec').2

theorem sameBut_pure (a : α) : SameBut layer (pure a) (pure a) :=
  fun _ _ hrec => ⟨rfl, hrec⟩

theorem SameBut.bind {x y : Pass α} {f g : α → Pass β} (h : SameBut layer x y)
    (hf : ∀ a, SameBut layer (f a) (g a)) : SameBut layer (x >>= f) (y >>= g) := by
  intro rec rec' hrec
  obtain ⟨hanswer, hleft⟩ := h rec rec' hrec
  show ((f (x.run rec).1).run (x.run rec).2).1 = ((g (y.run rec').1).run (y.run rec').2).1 ∧
    ((f (x.run rec).1).run (x.run rec).2).2.SameBut layer ((g (y.run rec').1).run (y.run rec').2).2
  rw [← hanswer]
  exact hf _ _ _ hleft

theorem sameBut_trace (t : Trace) : SameBut layer (trace t) (trace t) := by
  refine fun rec rec' hrec => ⟨rfl, ⟨?_, hrec.reporter⟩⟩
  show (t :: rec.traces).filter _ = (t :: rec'.traces).filter _
  rw [List.filter_cons, List.filter_cons, hrec.traces]

theorem sameBut_report (f : Reporter → Reporter) : SameBut layer (report f) (report f) :=
  fun _ _ hrec => ⟨rfl, ⟨hrec.traces, fun hrole => congrArg f (hrec.reporter hrole)⟩⟩

theorem SameBut.before {before : Pass Unit} {x y : Pass α} (hbefore : SameBut layer before (pure ()))
    (h : SameBut layer x y) : SameBut layer (before >>= fun _ => x) y :=
  hbefore.bind fun _ => h

theorem SameBut.after {after : α → Pass Unit} {x y : Pass α} (hafter : ∀ a, SameBut layer (after a) (pure ()))
    (h : SameBut layer x y) : SameBut layer (do let a ← x; after a; pure a) y := by
  have hright : SameBut layer (do let a ← x; after a; pure a) (y >>= pure) :=
    h.bind fun a => (hafter a).before (sameBut_pure a)
  rwa [bind_pure] at hright

/-- A pass with the layer is compared with one without it. -/
def SameButFor (layer : Layer) (α : Type) (x : Bool → Pass α) : Prop :=
  SameBut layer (x true) (x false)

theorem layered_sameBut (layer : Layer) : Layered (SameButFor layer) where
  pure := sameBut_pure
  bind := SameBut.bind
  trace := sameBut_trace
  leaf _ _ := sameBut_report _
  frame _ _ hx := (sameBut_report _).bind fun _ => hx.bind fun s => (sameBut_report _).bind fun _ => sameBut_pure s

theorem sameBut_trace_own {name : String} {t : Trace} (ht : t.recorder = name) :
    SameBut (.recorder name) (trace t) (pure ()) := by
  refine fun rec rec' hrec => ⟨rfl, ⟨?_, hrec.reporter⟩⟩
  have hwrites : (!(Layer.recorder name).writes t) = false := by
    rw [Layer.writes, Layer.recorder?, ht, beq_self_eq_true, Bool.not_true]
  show (t :: rec.traces).filter _ = _
  rw [List.filter_cons, hwrites]
  exact hrec.traces

theorem sameBut_report_own (f : Reporter → Reporter) : SameBut .reporting (report f) (pure ()) :=
  fun _ _ hrec => ⟨rfl, ⟨hrec.traces, fun hrole => absurd rfl hrole⟩⟩

end Pass

namespace Layer.Watches
variable {layer : Layer} {c : Chain} {rest : List Layer} {cur : Cursor} {y : Pass Status}

theorem sameBut_ask (h : layer.Watches) {l : Leaf} (hrest : Pass.SameBut layer (c.askThrough rest cur l) y) :
    Pass.SameBut layer (c.askThrough (layer :: rest) cur l) y := by
  cases layer with
  | recorder name => exact .before (Pass.sameBut_trace_own rfl) (.after (fun _ => Pass.sameBut_trace_own rfl) hrest)
  | reporting => exact .after (fun _ => Pass.sameBut_report_own _) hrest
  | handler k =>
    rw [Chain.askThrough, h.1, Handling.run_forward]
    exact hrest
  | single | candidate | guard => cases h

theorem sameBut_around (h : layer.Watches) {b : Branch} {body : Cursor → Pass Status}
    (hrest : Pass.SameBut layer (c.aroundThrough rest cur b body) y) :
    Pass.SameBut layer (c.aroundThrough (layer :: rest) cur b body) y := by
  cases layer with
  | recorder name => exact .before (Pass.sameBut_trace_own rfl) (.after (fun _ => Pass.sameBut_trace_own rfl) hrest)
  | reporting => exact .before (Pass.sameBut_report_own _) (.after (fun _ => Pass.sameBut_report_own _) hrest)
  | handler k =>
    rw [Chain.aroundThrough, h.2.1, Handling.run_forward]
    exact hrest
  | single | candidate | guard => cases h

/-- A layer that only watches may stand anywhere in a chain. -/
theorem sameBut_query (h : layer.Watches) (front back : List Layer) (t : Terms) (q : Query) (cur : Cursor) :
    Pass.SameBut layer (q.run ⟨front ++ layer :: back, t⟩ cur) (q.run ⟨front ++ back, t⟩ cur) := by
  have hcarry := (Pass.layered_sameBut layer).carry_insert front back t h.passes?_eq
    (fun _ hback => h.sameBut_ask hback) fun _ _ hback => h.sameBut_around hback
  exact hcarry.query q cur

end Layer.Watches

/-! ### What recorders see -/

/-- A call as every recorder sees it, with the calls made on the way to its answer. -/
inductive Call where
  | mk (kind member : String) (isLeaf isCheck : Bool) (consumed operandDepth : Nat) (nested : List Call) (s : Status)

namespace Call

/-- What recorders, outermost first, write before and after something else is written. -/
def framed (names : List String) (enter leave : String → Trace) (inner : List Trace) : List Trace :=
  names.map enter ++ (inner ++ names.reverse.map leave)

mutual

/-- What recorders write of a call: the calls inside go through all of them again. -/
def log (names : List String) : Call → List Trace
  | mk kind member isLeaf isCheck consumed operandDepth nested s =>
    framed names (.enter · kind member isLeaf isCheck consumed operandDepth) (.leave · kind member s)
      (logs names nested)

def logs (names : List String) : List Call → List Trace
  | [] => []
  | call :: calls => log names call ++ logs names calls

end

variable {names : List String} {enter leave : String → Trace} {inner : List Trace}

theorem framed_nil : framed [] enter leave inner = inner := by
  simp [framed]

theorem framed_cons (name : String) :
    framed (name :: names) enter leave inner = enter name :: (framed names enter leave inner ++ [leave name]) := by
  simp [framed]

theorem logs_append (calls calls' : List Call) :
    logs names (calls ++ calls') = logs names calls ++ logs names calls' := by
  induction calls with
  | nil => rfl
  | cons call calls ih => rw [List.cons_append, logs, logs, ih, List.append_assoc]

theorem filter_framed (ours : String → Bool) (henter : ∀ name, (enter name).recorder = name)
    (hleave : ∀ name, (leave name).recorder = name) :
    (framed names enter leave inner).filter (ours ·.recorder) =
      framed (names.filter ours) enter leave (inner.filter (ours ·.recorder)) := by
  have hin : (ours ·.recorder) ∘ enter = ours := funext fun name => congrArg ours (henter name)
  have hout : (ours ·.recorder) ∘ leave = ours := funext fun name => congrArg ours (hleave name)
  rw [framed, framed, List.filter_append, List.filter_append, List.filter_map, List.filter_map, hin, hout,
    List.filter_reverse]

mutual

theorem filter_log (ours : String → Bool) : ∀ call : Call,
    (log names call).filter (ours ·.recorder) = log (names.filter ours) call
  | mk kind member isLeaf isCheck consumed operandDepth nested s => by
    rw [log, log, filter_framed ours (fun _ => rfl) (fun _ => rfl), filter_logs ours nested]

/-- What some of the recorders write is what they would write alone. -/
theorem filter_logs (ours : String → Bool) : ∀ calls : List Call,
    (logs names calls).filter (ours ·.recorder) = logs (names.filter ours) calls
  | [] => rfl
  | call :: calls => by rw [logs, logs, List.filter_append, filter_log ours call, filter_logs ours calls]

end

/-! ### Bracketing -/

variable {kind member : String} {s : Status} {opened : List (String × String × String)} {ts : List Trace}

theorem closes_enter (names : List String) (isLeaf isCheck : Bool) (consumed operandDepth : Nat)
    (opened : List (String × String × String)) :
    Trace.closes opened (names.map (.enter · kind member isLeaf isCheck consumed operandDepth) ++ ts) =
      Trace.closes (names.reverse.map (·, kind, member) ++ opened) ts := by
  induction names generalizing opened with
  | nil => rfl
  | cons name names ih =>
    have hopen : (name :: names).reverse.map (·, kind, member) ++ opened =
        names.reverse.map (·, kind, member) ++ (name, kind, member) :: opened := by simp
    rw [hopen, List.map_cons, List.cons_append, Trace.closes]
    exact ih _

theorem closes_leave (names : List String) :
    Trace.closes (names.map (·, kind, member) ++ opened) (names.map (.leave · kind member s) ++ ts) =
      Trace.closes opened ts := by
  induction names with
  | nil => rfl
  | cons name names ih =>
    rw [List.map_cons, List.map_cons, List.cons_append, List.cons_append, Trace.closes]
    simpa [Trace.call] using ih

mutual

theorem closes_log : ∀ (call : Call) (opened : List (String × String × String)) (ts : List Trace),
    Trace.closes opened (log names call ++ ts) = Trace.closes opened ts
  | mk kind member isLeaf isCheck consumed operandDepth nested s, opened, ts => by
    rw [log, framed, List.append_assoc, List.append_assoc, closes_enter, closes_logs nested, closes_leave]

theorem closes_logs : ∀ (calls : List Call) (opened : List (String × String × String)) (ts : List Trace),
    Trace.closes opened (logs names calls ++ ts) = Trace.closes opened ts
  | [], _, _ => rfl
  | call :: calls, opened, ts => by
    rw [logs, List.append_assoc, closes_log call, closes_logs calls]

end

end Call

/-! ### What is written -/

namespace Pass
variable {α β : Type}

/-- Whatever has been recorded, a pass answers `a` and adds the entries. -/
def Writes (x : Pass α) (a : α) (log : List Trace) : Prop :=
  ∀ rec, (x.run rec).1 = a ∧ (x.run rec).2.traces = log.reverse ++ rec.traces

theorem writes_pure (a : α) : (pure a : Pass α).Writes a [] :=
  fun _ => ⟨rfl, rfl⟩

theorem writes_trace (t : Trace) : (trace t).Writes () [t] :=
  fun _ => ⟨rfl, rfl⟩

theorem writes_report (f : Reporter → Reporter) : (report f).Writes () [] :=
  fun _ => ⟨rfl, rfl⟩

theorem Writes.bind {x : Pass α} {f : α → Pass β} {a : α} {b : β} {log log' : List Trace} (hx : x.Writes a log)
    (hf : (f a).Writes b log') : (x >>= f).Writes b (log ++ log') := by
  intro rec
  obtain ⟨hanswer, hlog⟩ := hx rec
  obtain ⟨hanswer', hlog'⟩ := hf (x.run rec).2
  show ((f (x.run rec).1).run (x.run rec).2).1 = b ∧
    ((f (x.run rec).1).run (x.run rec).2).2.traces = (log ++ log').reverse ++ rec.traces
  rw [hanswer, hlog', hlog, List.reverse_append, List.append_assoc]
  exact ⟨hanswer', rfl⟩

theorem Writes.before {before : Pass Unit} {x : Pass α} {a : α} {log log' : List Trace}
    (hbefore : before.Writes () log) (hx : x.Writes a log') : (before >>= fun _ => x).Writes a (log ++ log') :=
  hbefore.bind hx

theorem Writes.after {f : α → Pass Unit} {x : Pass α} {a : α} {log log' : List Trace} (hx : x.Writes a log)
    (hafter : (f a).Writes () log') : Writes (do let a ← x; f a; pure a) a (log ++ log') := by
  have hthen : Writes (f a >>= fun _ => pure a) a (log' ++ []) := hafter.bind (f := fun _ => pure a) (writes_pure a)
  rw [List.append_nil] at hthen
  exact hx.bind hthen

end Pass

/-- The layers of a chain that only watches. -/
abbrev Watchers : Type :=
  { layers : List Layer // ∀ layer ∈ layers, layer.Watches }

/-- The names of the recorders, outermost first. -/
def Layer.recorders (layers : List Layer) : List String :=
  layers.filterMap Layer.recorder?

theorem Layer.recorders_cons (name : String) (layers : List Layer) :
    recorders (.recorder name :: layers) = name :: recorders layers := rfl

namespace Chain
variable {c : Chain} {layers : List Layer}

open Pass

/-- Layers that only watch leave the answer to the object. -/
theorem writes_askThrough (h : ∀ layer ∈ layers, layer.Watches) (cur : Cursor) (l : Leaf) :
    Writes (c.askThrough layers cur l) (cur.answer c.registry l)
      (Call.framed (Layer.recorders layers)
        (.enter · l.kind l.member.dotted true l.isCheck cur.consumed cur.operandBase.2)
        (.leave · l.kind l.member.dotted (cur.answer c.registry l)) []) := by
  induction layers with
  | nil => exact writes_pure _
  | cons layer rest ih =>
    obtain ⟨hlayer, hrest⟩ := List.forall_mem_cons.1 h
    cases layer with
    | recorder name =>
      rw [Layer.recorders_cons, Call.framed_cons]
      exact .before (writes_trace _) (.after (ih hrest) (writes_trace _))
    | reporting =>
      have h := (ih hrest).after (f := fun s => report (·.leaf s l)) (writes_report _)
      rwa [List.append_nil] at h
    | handler k =>
      rw [askThrough, hlayer.1, Handling.run_forward]
      exact ih hrest
    | single | candidate | guard => cases hlayer

theorem writes_aroundThrough (h : ∀ layer ∈ layers, layer.Watches) {cur : Cursor} (b : Branch)
    {body : Cursor → Pass Status} {s : Status} {inner : List Trace} (hbody : (body cur).Writes s inner) :
    Writes (c.aroundThrough layers cur b body) s
      (Call.framed (Layer.recorders layers)
        (.enter · b.kind b.member.dotted false false cur.consumed cur.operandBase.2)
        (.leave · b.kind b.member.dotted s) inner) := by
  induction layers with
  | nil =>
    rw [Layer.recorders, List.filterMap_nil, Call.framed_nil]
    exact hbody
  | cons layer rest ih =>
    obtain ⟨hlayer, hrest⟩ := List.forall_mem_cons.1 h
    cases layer with
    | recorder name =>
      rw [Layer.recorders_cons, Call.framed_cons]
      exact .before (writes_trace _) (.after (ih hrest) (writes_trace _))
    | reporting =>
      have h := (writes_report (·.enter b.frame)).before
        ((ih hrest).after (f := fun s => report (·.leave s)) (writes_report _))
      rwa [List.append_nil, List.nil_append] at h
    | handler k =>
      rw [aroundThrough, hlayer.2.1, Handling.run_forward]
      exact ih hrest
    | single | candidate | guard => cases hlayer

end Chain

/-- Passes through layers that only watch: all answer the same, and all that is written down is one
forest of calls. -/
def Pass.Witnessed (α : Type) (x : Watchers → Pass α) : Prop :=
  ∃ a calls, ∀ w, (x w).Writes a (Call.logs (Layer.recorders w.1) calls)

namespace Pass

theorem composes_witnessed : Composes Witnessed where
  pure a := ⟨a, [], fun _ => writes_pure a⟩
  bind := by
    rintro α β x f ⟨a, calls, hx⟩ hf
    obtain ⟨b, calls', hthen⟩ := hf a
    refine ⟨b, calls ++ calls', fun w => ?_⟩
    rw [Call.logs_append]
    exact (hx w).bind (hthen w)

theorem carry_witnessed (t : Terms) : Chain.Carry Witnessed (fun w : Watchers => w.1) t where
  composes := composes_witnessed
  passes := by
    refine ⟨Chain.mk [] t, fun w m s => ?_⟩
    have hnone : w.1.findSome? (Layer.passes? m s) = none :=
      List.findSome?_eq_none_iff.2 fun layer hlayer => (w.2 layer hlayer).passes?_eq m s
    rw [Chain.passes, hnone]
    rfl
  ask := by
    intro cur l
    refine ⟨cur.answer t.registry l, [.mk l.kind l.member.dotted true l.isCheck cur.consumed cur.operandBase.2 []
      (cur.answer t.registry l)], fun w => ?_⟩
    rw [Call.logs, Call.logs, Call.log, Call.logs, List.append_nil]
    exact Chain.writes_askThrough w.2 cur l
  around := by
    intro cur b body hbody
    obtain ⟨s, calls, hinner⟩ := hbody cur
    refine ⟨s, [.mk b.kind b.member.dotted false false cur.consumed cur.operandBase.2 calls s], fun w => ?_⟩
    rw [Call.logs, Call.logs, Call.log, List.append_nil]
    exact Chain.writes_aroundThrough w.2 b (hinner w)

end Pass

/-- Layers that only watch change no answer wherever they stand, and in a chain of such layers all
recorders see the same calls, each entered from the outermost recorder to the innermost and left the
other way round, with the calls inside in between. -/
theorem Query.run_watched (t : Terms) (q : Query) (cur : Cursor) :
    (∀ (front back : List Layer) (layer : Layer), layer.Watches →
      Pass.SameBut layer (q.run ⟨front ++ layer :: back, t⟩ cur) (q.run ⟨front ++ back, t⟩ cur)) ∧
    ∃ s calls, ∀ layers : List Layer, (∀ layer ∈ layers, layer.Watches) →
      (q.run ⟨layers, t⟩ cur).Writes s (Call.logs (Layer.recorders layers) calls) ∧
      Trace.closes [] (Call.logs (Layer.recorders layers) calls) = true ∧
      ∀ name, (Call.logs (Layer.recorders layers) calls).filter (·.recorder == name) =
        Call.logs (List.replicate ((Layer.recorders layers).count name) name) calls := by
  refine ⟨fun front back layer h => h.sameBut_query front back t q cur, ?_⟩
  obtain ⟨s, calls, hwrites⟩ := (Pass.carry_witnessed t).query q cur
  refine ⟨s, calls, fun layers hlayers => ⟨hwrites ⟨layers, hlayers⟩, ?_, fun name => ?_⟩⟩
  · rw [← List.append_nil (Call.logs _ _), Call.closes_logs]
    rfl
  · rw [Call.filter_logs (· == name), List.filter_beq]

/-- A reporter between two recorders, which see a question of existence inside of a negation. -/
theorem Query.run_watched_negation :
    let q : Query := .rule (.group .not [.bind { path := [.name "a"] } (.presence true)]) .root
    let cur : Cursor := .start (.json (.object [("a", .null)]))
    let layers : List Layer := [.recorder "outer", .reporting, .recorder "inner"]
    ((Layer.recorder "outer").Watches ∧ ∀ layer ∈ layers, layer.Watches) ∧
    Pass.SameBut (.recorder "outer") (q.run ⟨layers, {}⟩ cur) (q.run ⟨[.reporting, .recorder "inner"], {}⟩ cur) ∧
    ∃ calls, (q.run ⟨layers, {}⟩ cur).Writes .fail (Call.logs ["outer", "inner"] calls) ∧
      (Call.logs ["outer", "inner"] calls).filter (·.recorder == "inner") = Call.logs ["inner"] calls ∧
      Call.logs ["inner"] calls =
        [.enter "inner" "not" "" false false 0 0, .enter "inner" "exists" "a" true false 0 0,
          .leave "inner" "exists" "a" .success, .leave "inner" "not" "" .fail] := by
  intro q cur layers
  have hwatch : ∀ layer ∈ layers, layer.Watches := by
    simp [layers, Layer.Watches]
  have hinner : ∀ layer ∈ [Layer.recorder "inner"], layer.Watches := by
    simp [Layer.Watches]
  obtain ⟨hinsert, s, calls, hseen⟩ := run_watched {} q cur
  obtain ⟨hwrites, -, hfilter⟩ := hseen layers hwatch
  obtain ⟨halone, -, -⟩ := hseen [.recorder "inner"] hinner
  have hs : s = .fail := (hwrites default).1.symm
  have hlog : (Call.logs ["inner"] calls).reverse = _ := ((halone default).2.trans (List.append_nil _)).symm
  refine ⟨⟨trivial, hwatch⟩, hinsert [] [.reporting, .recorder "inner"] (.recorder "outer") trivial, calls, hs ▸ hwrites,
    hfilter "inner", ?_⟩
  exact List.reverse_injective hlog

end Conform
