import Mathlib.Data.List.Forall2
import Mathlib.Logic.Relation
import Conform.Rule

/-!
# Rewriting inside rules

`Rule.Rewrites R` relates two rules that lead to each other by steps of `R`, each taken at any place in
the rule and in either direction. An equivalence of rules that the constructors keep
(`Rule.Congruent`) contains it as soon as it contains `R` (`Rule.Congruent.of_rewrites`).
-/

namespace Conform.Rule

variable {R : Rule → Rule → Prop} {r r' : Rule}

/-- The rules differ in one place, and there by a step of `R`. -/
inductive Step (R : Rule → Rule → Prop) : Rule → Rule → Prop
  | here {r r' : Rule} (h : R r r') : Step R r r'
  | bind (m : Member) {r r' : Rule} (h : Step R r r') : Step R (.bind m r) (.bind m r')
  | group (k : Connective) (front back : List Rule) {r r' : Rule} (h : Step R r r') :
    Step R (.group k (front ++ r :: back)) (.group k (front ++ r' :: back))
  | elements (e : Expansion) (front back : List Rule) {r r' : Rule} (h : Step R r r') :
    Step R (.elements e (front ++ r :: back)) (.elements e (front ++ r' :: back))
  | explain (message : String) {r r' : Rule} (h : Step R r r') : Step R (.explain message r) (.explain message r')

def Rewrites (R : Rule → Rule → Prop) : Rule → Rule → Prop :=
  Relation.EqvGen (Step R)

/-- An equivalence of rules that holds between rules if it holds between their parts. -/
structure Congruent (E : Rule → Rule → Prop) : Prop where
  equivalence : Equivalence E
  bind (m : Member) {r r' : Rule} : E r r' → E (.bind m r) (.bind m r')
  group (k : Connective) {rs rs' : List Rule} : List.Forall₂ E rs rs' → E (.group k rs) (.group k rs')
  elements (e : Expansion) {rs rs' : List Rule} : List.Forall₂ E rs rs' → E (.elements e rs) (.elements e rs')
  explain (message : String) {r r' : Rule} : E r r' → E (.explain message r) (.explain message r')

namespace Congruent
variable {E : Rule → Rule → Prop} (hE : Congruent E)

include hE

theorem forall₂_parts (front back : List Rule) (h : E r r') :
    List.Forall₂ E (front ++ r :: back) (front ++ r' :: back) := by
  have hsame : ∀ rs : List Rule, List.Forall₂ E rs rs := fun rs => List.forall₂_same.2 fun r _ => hE.equivalence.refl r
  exact List.rel_append (hsame front) (.cons h (hsame back))

theorem of_step (hR : ∀ r r', R r r' → E r r') (h : Step R r r') : E r r' := by
  induction h with
  | here h => exact hR _ _ h
  | bind m _ ih => exact hE.bind m ih
  | group k front back _ ih => exact hE.group k (hE.forall₂_parts front back ih)
  | elements e front back _ ih => exact hE.elements e (hE.forall₂_parts front back ih)
  | explain message _ ih => exact hE.explain message ih

theorem of_rewrites (hR : ∀ r r', R r r' → E r r') (h : Rewrites R r r') : E r r' := by
  induction h with
  | rel _ _ h => exact hE.of_step hR h
  | refl r => exact hE.equivalence.refl r
  | symm _ _ _ ih => exact hE.equivalence.symm ih
  | trans _ _ _ _ _ ih ih' => exact hE.equivalence.trans ih ih'

end Congruent

end Conform.Rule
