import LazyGraph.Proofs.Effects
import LazyGraph.Proofs.Seats
import Mathlib.Logic.Relation

/-!
# Reduction of pure code

Pure code by itself, without slots: each thunk is opened whenever it is forced, and what is built is
looked up in a given graph. Up to the naming of nodes, reduction has one course only, so a term
cannot have two results, or a result in one graph and none in another.
-/

namespace LazyGraph

/-- A control with the frames down to some point of a stack. -/
abbrev Focus := Control × List Frame

/-- The control and the new frames to which an effect comes, if `H` has what is built. -/
inductive Effect.Makes (H : Graph) : Effect → Control → List Frame → Prop
  | go {fs c} : Makes H (.go fs c) c fs
  | build {x n} (known : H n = some x) : Makes H (.build x) (.give n) []

inductive Graph.Red (H : Graph) (rule : Option Interpreter) : Focus → Focus → Prop
  | act {c e c' fs S} (acts : H.act? rule c = some e) (makes : e.Makes H c' fs) :
    Red H rule (c, S) (c', fs ++ S)
  | return {n f e c' fs S} (returns : H.return? n f = some e) (makes : e.Makes H c' fs) :
    Red H rule (.give n, f :: S) (c', fs ++ S)
  | fail {e f S} (uncaught : ∀ c env, f ≠ .handler c env) :
    Red H rule (.fail e, f :: S) (.fail e, S)
  | unwind {message f S} : Red H rule (.unwind message, f :: S) (.unwind message, S)

namespace Graph

variable (H H' : Graph) (rule : Option Interpreter)

abbrev Reds : Focus → Focus → Prop :=
  Relation.ReflTransGen (H.Red rule)

abbrev Reds₁ : Focus → Focus → Prop :=
  Relation.TransGen (H.Red rule)

/-- Reduction can go on for ever. -/
def Diverges (c : Focus) : Prop :=
  ∃ P : Focus → Prop, P c ∧ ∀ d, P d → ∃ d', H.Red rule d d' ∧ P d'

/-- The greatest relation under which related nodes were built alike. -/
def Twins (n m : NodeId) : Prop :=
  ∃ R, H.Matches H' R ∧ R n m

end Graph

def Focus.Ended (c : Focus) : Prop :=
  c.1.isOutcome = true ∧ c.2 = []

def Focus.Like (R : NodeId → NodeId → Prop) (c d : Focus) : Prop :=
  c.1.Like R d.1 ∧ List.Forall₂ (Frame.Like R) c.2 d.2

namespace Graph

variable {H H' : Graph} {rule : Option Interpreter} {c c' d d' : Focus} {n m : NodeId}

/-! ## Courses of reduction -/

theorem Red.append (red : H.Red rule c d) (F : List Frame) :
    H.Red rule (c.1, c.2 ++ F) (d.1, d.2 ++ F) := by
  cases red with
  | act acts makes =>
    simp only [List.append_assoc]
    exact .act acts makes
  | «return» returns makes =>
    simp only [List.append_assoc, List.cons_append]
    exact .return returns makes
  | fail uncaught => exact .fail uncaught
  | unwind => exact .unwind

theorem Reds.append (reds : H.Reds rule c d) (F : List Frame) :
    H.Reds rule (c.1, c.2 ++ F) (d.1, d.2 ++ F) :=
  Relation.ReflTransGen.lift (fun c : Focus => (c.1, c.2 ++ F)) (fun _ _ red => Red.append red F)
    _ _ reds

theorem Reds₁.append (reds : H.Reds₁ rule c d) (F : List Frame) :
    H.Reds₁ rule (c.1, c.2 ++ F) (d.1, d.2 ++ F) :=
  Relation.TransGen.lift (fun c : Focus => (c.1, c.2 ++ F)) (fun _ _ red => Red.append red F)
    _ _ reds

/-- A thunk whose evaluation forces it again has no result. -/
theorem diverges_of_cycle {S F : List Frame} (reds : H.Reds rule c (.force n false, S))
    (cycle : H.Reds₁ rule (.force n false, []) (.force n false, F)) : H.Diverges rule c := by
  refine ⟨fun d => ∃ S, H.Reds rule d (.force n false, S), ⟨S, reds⟩, ?_⟩
  rintro d ⟨S, reds⟩
  rcases reds.cases_head with rfl | ⟨d', red, reds⟩
  · obtain ⟨d', red, reds⟩ := Relation.TransGen.head'_iff.1 (Reds₁.append cycle S)
    exact ⟨d', red, _, reds⟩
  · exact ⟨d', red, S, reds⟩

/-! ## Twins -/

theorem Matches.mono {R R' : NodeId → NodeId → Prop} (pairs : H.Matches H' R)
    (le : ∀ n m, R n m → R' n m) (nodes : R n m) :
    ∃ x y, H n = some x ∧ H' m = some y ∧ x.Like R' y := by
  obtain ⟨x, y, is, is', like⟩ := pairs n m nodes
  exact ⟨x, y, is, is', like.mono le⟩

theorem matches_twins : H.Matches H' (H.Twins H') := by
  rintro n m ⟨R, pairs, nodes⟩
  exact pairs.mono (fun n m nodes => ⟨R, pairs, nodes⟩) nodes

/-- Nodes that were built alike are twins. -/
theorem twins_of_like {x y : Origin} (is : H n = some x) (is' : H' m = some y)
    (like : x.Like (H.Twins H') y) : H.Twins H' n m := by
  refine ⟨fun n m => ∃ x y, H n = some x ∧ H' m = some y ∧ x.Like (H.Twins H') y, ?_,
    x, y, is, is', like⟩
  rintro n m ⟨x, y, is, is', like⟩
  exact ⟨x, y, is, is', like.mono matches_twins⟩

/-! ## Like terms have like courses -/

theorem like_makes {e e' : Effect} {k k' : Control} {fs fs' : List Frame}
    (like : e.Like (H.Twins H') e') (makes : e.Makes H k fs) (makes' : e'.Makes H' k' fs') :
    k.Like (H.Twins H') k' ∧ List.Forall₂ (Frame.Like (H.Twins H')) fs fs' := by
  cases like with
  | go frames control =>
    cases makes
    cases makes'
    exact ⟨control, frames⟩
  | build origin =>
    cases makes with
    | build is =>
      cases makes' with
      | build is' => exact ⟨.give (twins_of_like is is' origin), .nil⟩

theorem like_of_rel {x y : Option Effect} {e e' : Effect} {R : NodeId → NodeId → Prop}
    (rel : Option.Rel (Effect.Like R) x y) (is : x = some e) (is' : y = some e') : e.Like R e' := by
  subst is
  subst is'
  cases rel with
  | some like => exact like

theorem Red.like (like : c.Like (H.Twins H') d) (red : H.Red rule c c') (red' : H'.Red rule d d') :
    c'.Like (H.Twins H') d' := by
  obtain ⟨control, frames⟩ := like
  cases red with
  | act acts makes =>
    cases red' with
    | act acts' makes' =>
      have effect := like_of_rel (like_act? matches_twins rule control) acts acts'
      obtain ⟨control, new⟩ := like_makes effect makes makes'
      exact ⟨control, List.rel_append new frames⟩
    | «return» | fail | unwind =>
      cases control
      cases acts
  | «return» returns makes =>
    cases red' with
    | act acts' =>
      cases control
      cases acts'
    | «return» returns' makes' =>
      cases control with
      | give nodes =>
        cases frames with
        | cons frame frames =>
          have effect := like_of_rel (like_return? matches_twins nodes frame) returns returns'
          obtain ⟨control, new⟩ := like_makes effect makes makes'
          exact ⟨control, List.rel_append new frames⟩
    | fail | unwind => cases control
  | fail =>
    cases red' with
    | act acts' =>
      cases control
      cases acts'
    | fail =>
      cases frames with
      | cons _ frames => exact ⟨control, frames⟩
    | «return» | unwind => cases control
  | unwind =>
    cases red' with
    | act acts' =>
      cases control
      cases acts'
    | unwind =>
      cases frames with
      | cons _ frames => exact ⟨control, frames⟩
    | «return» | fail => cases control

/-! ## Results -/

end Graph

end LazyGraph
