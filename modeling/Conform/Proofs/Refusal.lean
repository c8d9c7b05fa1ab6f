import Conform.Proofs.Document

/-!
# Refused writes

A walk that finds no place for a value leaves the document as it was, unless it has added a name by
then and goes on with a key that is not a name (`Json.put_refused`). So a refused write changes the
document for such paths, and for no others (`Validator.commit_refused`).
-/

namespace Conform

theorem Fields.set_get? {α : Type} {name : String} {v : α} {fields : List (String × α)} (h : Ascending fields)
    (hv : get? name fields = some v) : set name v fields = fields := by
  induction fields with
  | nil => cases hv
  | cons f fs ih =>
    obtain ⟨k, w⟩ := f
    obtain ⟨habove, hfs⟩ := List.pairwise_cons.1 h
    by_cases heq : name = k
    · rw [get?, if_pos heq] at hv
      cases hv
      rw [set, if_pos heq]
    · rw [get?, if_neg heq] at hv
      have hlt : ¬ name < k := String.lt_asymm (habove _ (mem_of_get? hv))
      rw [set, if_neg heq, if_neg hlt, ih hfs hv]

namespace Json
variable {r : Registry} {candidate doc doc' v x : Json} {k : Key} {p q : Path} {ok : Bool}

theorem Sets.eq_of_child? (h : Sets v k doc doc') (hdoc : doc.WellFormed) (hv : doc.child? k = some v) :
    doc' = doc := by
  cases h with
  | fresh s => cases hv
  | field s fields => rw [Fields.set_get? hdoc.ascending hv]
  | item i items hi =>
    obtain ⟨_, rfl⟩ := List.getElem?_eq_some_iff.1 hv
    rw [List.set_getElem_self]

theorem put_of_sets (h : Sets v k doc doc') (hv : put x q ((doc.child? k).getD .null) = (v, ok)) :
    put x (k :: q) doc = (doc', ok) := by
  cases h with
  | fresh s =>
    have hv : put x q .null = (v, ok) := hv
    rw [put, hv]
  | field s fields =>
    have hv : put x q ((Fields.get? s fields).getD .null) = (v, ok) := hv
    rw [put, hv]
  | item i items hi =>
    have hv : put x q (items[i]?.getD .null) = (v, ok) := hv
    rw [List.getElem?_eq_getElem hi, Option.getD_some] at hv
    rw [put, List.getElem?_eq_getElem hi]
    simp only [hv]

theorem head_of_put_null (h : put candidate p .null = (.null, false)) :
    ∃ k rest, p = k :: rest ∧ ∀ s, k ≠ .name s := by
  cases p with
  | nil => cases h
  | cons k rest =>
    refine ⟨k, rest, rfl, ?_⟩
    rintro s rfl
    cases h

/-- A walk that gets stuck keeps the document, or it has added a null at a place that was not there
and from which the next key, not being a name, does not lead on. -/
theorem put_refused (hdoc : doc.WellFormed) (h : put candidate p doc = (doc', false)) :
    doc' = doc ∨ ∃ q k rest, p = q ++ k :: rest ∧ (∀ s, k ≠ .name s) ∧ r.at? (.json doc) q = none ∧
      put .null q doc = (doc', true) := by
  -- the walk goes on in the child, or in a null where there is none
  induction p generalizing doc doc' with
  | nil => cases h
  | cons k p ih =>
    rcases put_step h with ⟨rfl, -⟩ | ⟨v, hv, hset⟩
    · exact .inl rfl
    have hcons := r.at?_json_cons doc hset.isLiteral
    cases hchild : doc.child? k with
    | none =>
      rw [hchild] at hv
      have hnone : ∀ q, r.at? (.json doc) (k :: q) = none := fun q => by rw [hcons, hchild, Option.bind_none]
      have hgo : ∀ {q}, put .null q .null = (v, true) → put .null (k :: q) doc = (doc', true) := fun hq =>
        put_of_sets hset (by rw [hchild]; exact hq)
      rcases ih (by simp [WellFormed]) hv with rfl | ⟨q, l, rest, rfl, hl, -, hq⟩
      · obtain ⟨l, rest, rfl, hl⟩ := head_of_put_null hv
        exact .inr ⟨[k], l, rest, rfl, hl, hnone [], hgo rfl⟩
      · exact .inr ⟨k :: q, l, rest, rfl, hl, hnone q, hgo hq⟩
    | some c =>
      rw [hchild] at hv
      rcases ih (hdoc.child hchild) hv with rfl | ⟨q, l, rest, rfl, hl, hat, hq⟩
      · exact .inl (hset.eq_of_child? hdoc hchild)
      · refine .inr ⟨k :: q, l, rest, rfl, hl, ?_, put_of_sets hset (by rw [hchild]; exact hq)⟩
        rw [hcons, hchild, Option.bind_some, hat]

end Json

namespace Validator
variable {v : Validator} {doc doc' candidate : Json} {m : Member} {f : Failure}

theorem of_commit_error (h : v.commit doc m candidate = (doc', .error f)) :
    (v.prevalidate (.json doc) m (.json candidate)).status = .fail ∧ doc' = doc ∨
      (v.prevalidate (.json doc) m (.json candidate)).status ≠ .fail ∧ f = .unwritable m.dotted ∧
        Json.put candidate m.path doc = (doc', false) := by
  by_cases hvalid : (v.prevalidate (.json doc) m (.json candidate)).status = .fail
  · rw [commit, Outcome.result_of_fail hvalid] at h
    cases h
    exact .inl ⟨hvalid, rfl⟩
  · rw [commit, Outcome.result_of_ne_fail hvalid] at h
    refine .inr ⟨hvalid, ?_⟩
    dsimp only at h
    split at h
    · cases h
    next hput => cases h; exact ⟨rfl, hput⟩

theorem commit_of_unplaced (h : (v.prevalidate (.json doc) m (.json candidate)).status ≠ .fail)
    (hput : Json.put candidate m.path doc = (doc', false)) :
    v.commit doc m candidate = (doc', .error (.unwritable m.dotted)) := by
  rw [commit, Outcome.result_of_ne_fail h, hput]

/-- A refused write leaves the document alone, unless the rules accept the candidate and the path
adds a name and goes on with a key that is not one. In that case the document keeps the names that
were added, with a null behind the last. -/
theorem commit_refused (hdoc : doc.WellFormed) (h : v.commit doc m candidate = (doc', .error f)) :
    doc' ≠ doc ↔ (v.prevalidate (.json doc) m (.json candidate)).status ≠ .fail ∧
      ∃ q k rest, m.path = q ++ k :: rest ∧ (∀ s, k ≠ .name s) ∧
        v.terms.registry.find? (.json doc) q = none ∧ Json.put .null q doc = (doc', true) := by
  have hfind : ∀ q, v.terms.registry.find? (.json doc) q = none ↔ v.terms.registry.at? (.json doc) q = none :=
    fun q => Option.map_eq_none_iff.symm
  constructor
  · intro hne
    rcases of_commit_error h with ⟨-, heq⟩ | ⟨hvalid, -, hput⟩
    · exact absurd heq hne
    · obtain ⟨q, k, rest, hq⟩ := (Json.put_refused hdoc hput).resolve_left hne
      exact ⟨hvalid, q, k, rest, by rwa [hfind]⟩
  · rintro ⟨-, q, k, rest, -, -, hq, hput⟩ rfl
    rw [hfind, Json.at?_put hput] at hq
    cases hq

/-- A list that is not there has no third place, but the path to it is kept. -/
theorem commit_refused_slot :
    let v : Validator := { rule := .bind { path := [.name "port"] } (.condition (.compare .lt) (.value (.int 65536))) }
    let doc : Json := .object [("a", .object [])]
    let doc' : Json := .object [("a", .object [("b", .object [("c", .null)])])]
    let m : Member := { path := [.name "a", .name "b", .name "c", .index 2, .name "d"] }
    (doc.WellFormed ∧ v.commit doc m (.int 1) = (doc', .error (.unwritable m.dotted))) ∧
    (doc' ≠ doc ↔ (v.prevalidate (.json doc) m (.json (.int 1))).status ≠ .fail ∧
      ∃ q k rest, m.path = q ++ k :: rest ∧ (∀ s, k ≠ .name s) ∧
        v.terms.registry.find? (.json doc) q = none ∧ Json.put .null q doc = (doc', true)) := by
  intro v doc doc' m
  have hdoc : doc.WellFormed := by decide
  have h : v.commit doc m (.int 1) = (doc', .error (.unwritable m.dotted)) := commit_of_unplaced (by decide) rfl
  exact ⟨⟨hdoc, h⟩, commit_refused hdoc h⟩

/-- A position in what is not there cannot be written, but its name has been added by then. -/
theorem commit_refused_adds_name :
    let v : Validator := { rule := .bind { path := [.name "port"] } (.condition (.compare .lt) (.value (.int 65536))) }
    let m : Member := { path := [.name "a", .index 0] }
    v.commit (.object []) m (.int 1) = (.object [("a", .null)], .error (.unwritable m.dotted)) ∧
      Json.object [("a", .null)] ≠ .object [] := by
  intro v m
  exact ⟨commit_of_unplaced (by decide) rfl, by simp⟩

end Validator

end Conform
