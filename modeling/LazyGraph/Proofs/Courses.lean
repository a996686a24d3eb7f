import LazyGraph.Proofs.Origins
import LazyGraph.Proofs.Ownership

/-!
# Threads follow their code

A thread evaluates thunks in the course of others, and takes results from slots. Each of the thunks
under evaluation, forced by itself, reduces to what the thread has come to in its evaluation. So
whatever slots and other threads contribute, the thread follows the reduction of its code, or else
the reduction never ends, and it may find out.
-/

namespace LazyGraph

/-- What a frame is without regard to slots. -/
def Frame.plain : Frame → List Frame
  | .running _ _ => [.again]
  | .settling _ _ | .leaving _ => []
  | f => [f]

/-- Over each evaluation of the stack, the thunk reduces to what stands there, and below all of them
the initial term does. -/
def Graph.Linked (H : Graph) (rule : Option Interpreter) (c₀ : Focus) : List Frame → Focus → Prop
  | [], c => H.Reds rule c₀ c
  | f :: fs, c =>
    match f.thunk? with
    | none => Linked H rule c₀ fs (c.1, c.2 ++ [f])
    | some n => H.Reds₁ rule (.force n false, []) (c.1, c.2 ++ f.plain) ∧
      Linked H rule c₀ fs (.force n false, [])

variable {H : Graph} {rule : Option Interpreter} {c₀ c d : Focus} {f : Frame} {fs : List Frame}
  {n v : NodeId} {w w' : World} {t t' : Thread}

namespace Graph.Linked

theorem advance (linked : H.Linked rule c₀ fs c) (reds : H.Reds rule c d) :
    H.Linked rule c₀ fs d := by
  induction fs generalizing c d with
  | nil => exact Relation.ReflTransGen.trans linked reds
  | cons f fs ih =>
    unfold Linked at linked ⊢
    cases thunk : f.thunk? with
    | none =>
      rw [thunk] at linked
      exact ih linked (Reds.append reds [f])
    | some n =>
      rw [thunk] at linked
      exact ⟨linked.1.trans_left (Reds.append reds f.plain), linked.2⟩

theorem append {l : List Frame} (code : ∀ f ∈ l, f.thunk? = none) :
    H.Linked rule c₀ (l ++ fs) c ↔ H.Linked rule c₀ fs (c.1, c.2 ++ l) := by
  induction l generalizing c with
  | nil => simp
  | cons f l ih =>
    rw [List.cons_append, Linked]
    simp only [code f (List.mem_cons_self ..)]
    rw [ih fun g known => code g (List.mem_cons_of_mem _ known)]
    simp

/-- The topmost frame is done with. -/
theorem pop {k : Control} (linked : H.Linked rule c₀ (f :: fs) (k, []))
    (reds : H.Reds rule (k, f.plain) d) : H.Linked rule c₀ fs d := by
  unfold Linked at linked
  cases thunk : f.thunk? with
  | none =>
    rw [thunk] at linked
    have same : f.plain = [f] := by cases f <;> first | rfl | cases thunk
    exact advance linked (same ▸ reds)
  | some n =>
    rw [thunk] at linked
    exact advance linked.2 (linked.1.to_reflTransGen.trans reds)

theorem reduces (linked : H.Linked rule c₀ fs c) : ∃ F, H.Reds rule c₀ (c.1, c.2 ++ F) := by
  induction fs generalizing c with
  | nil => exact ⟨[], by simpa [Graph.Linked] using linked⟩
  | cons f fs ih =>
    unfold Linked at linked
    cases thunk : f.thunk? with
    | none =>
      rw [thunk] at linked
      obtain ⟨F, reds⟩ := ih linked
      exact ⟨f :: F, by simpa using reds⟩
    | some n =>
      rw [thunk] at linked
      obtain ⟨F, reds⟩ := ih linked.2
      have above := Reds.append linked.1.to_reflTransGen F
      exact ⟨f.plain ++ F, reds.trans (by simpa using above)⟩

/-- A thunk under evaluation reduces to what the thread has come to. -/
theorem thunk_reduces (linked : H.Linked rule c₀ fs c) (known : n ∈ fs.filterMap Frame.thunk?) :
    ∃ F, H.Reds₁ rule (.force n false, []) (c.1, c.2 ++ F) := by
  induction fs generalizing c with
  | nil => simp at known
  | cons f fs ih =>
    unfold Linked at linked
    cases thunk : f.thunk? with
    | none =>
      rw [thunk] at linked
      obtain ⟨F, reds⟩ := ih linked (by simpa [thunk] using known)
      exact ⟨f :: F, by simpa using reds⟩
    | some m =>
      rw [thunk] at linked
      rw [List.filterMap_cons_some thunk, List.mem_cons] at known
      rcases known with rfl | below
      · exact ⟨f.plain, linked.1⟩
      · obtain ⟨F, reds⟩ := ih linked.2 below
        have above := Reds₁.append linked.1 F
        exact ⟨f.plain ++ F, reds.trans (by simpa using above)⟩

theorem diverges (linked : H.Linked rule c₀ fs (.force n false, []))
    (known : n ∈ fs.filterMap Frame.thunk?) : H.Diverges rule c₀ := by
  obtain ⟨F, reds⟩ := linked.reduces
  obtain ⟨F', cycle⟩ := linked.thunk_reduces known
  exact diverges_of_cycle reds cycle

end Graph.Linked

/-- The result that a slot holds is that of its thunk. -/
def Graph.Memoizes (H : Graph) (rule : Option Interpreter) (w : World) : Prop :=
  ∀ n v, (w.slot n).cell = some (.value v) → H.Reds rule (.force n false, []) (.give v, [])

def Control.isAttempt : Control → Bool
  | .probe _ _ | .exchange _ _ _ => true
  | _ => false

namespace Thread

def Follows (H : Graph) (rule : Option Interpreter) (c₀ : Focus) (t : Thread) : Prop :=
  H.Linked rule c₀ t.stack (t.control.plain, [])

/-- The thread follows its code, or has run into a loop, or may not wait. -/
inductive Faithful (H : Graph) (rule : Option Interpreter) (c₀ : Focus) (t : Thread) : Prop
  | follows (follows : t.Follows H rule c₀)
  | loops {m} (at' : t.control = .fail (.loop m)) (diverges : H.Diverges rule c₀)
  | refused (at' : t.control = .unwind "would block")

/-- Slots are changed by evaluations only. -/
structure Tame (t : Thread) : Prop where
  attempts : t.control.isAttempt = false
  updates : ∀ n, t.control.updates? = some n → ∃ rest, t.stack = .leaving n :: rest

/-- What is known of a thread without errands that is about to take a step. -/
structure Scene (H : Graph) (rule : Option Interpreter) (w : World) (t : Thread) : Prop where
  pure : t.isPure = true
  tame : t.Tame
  seen : H.Fits w
  fits : H.Fits (t.proceed w).1
  within : t.control.In w.Has
  memoizes : H.Memoizes rule w
  sound : w.Sound
  interpreter : t.interprets w = true → (w.context t.context).interpreter = rule
  owned : ∀ n, t.control.isOutcome = false → t.control.isFirm = false →
    (w.slot n).ownedBy (t.me w) = true → n ∈ t.stack.filterMap Frame.thunk?
  active : ∀ n claim, t.control = .start n claim → (w.context t.context).stack.push? n = none →
    n ∈ t.stack.filterMap Frame.thunk?
  whole : ∀ n s, w.suspension? n = some s → s.cleared = true → (w.slot n).cell ≠ none

namespace Follows

variable (follows : t.Follows H rule c₀)

include follows

theorem of_plain (stack : t'.stack = t.stack) (control : t'.control.plain = t.control.plain) :
    t'.Follows H rule c₀ := by
  rw [Follows, stack, control]
  exact follows

theorem acts {x : Turn} {e : Effect} (acts : H.act? rule t.control.plain = some e)
    (realizes : Turn.Realizes H t.stack e x) : x.2.Follows H rule c₀ := by
  obtain ⟨fs, makes, stack, code⟩ := realizes
  rw [Follows, stack, Graph.Linked.append code]
  exact follows.advance (.single (by simpa using Graph.Red.act (S := []) acts makes))

theorem returns {x : Turn} {e : Effect} {stack : List Frame} (at' : t.control = .give n)
    (top : t.stack = f :: stack) (code : f.thunk? = none) (returns : H.return? n f = some e)
    (realizes : Turn.Realizes H stack e x) : x.2.Follows H rule c₀ := by
  obtain ⟨fs, makes, after, new⟩ := realizes
  rw [Follows, top, at'] at follows
  rw [Follows, after, Graph.Linked.append new]
  have same : f.plain = [f] := by cases f <;> first | rfl | cases code
  refine follows.pop ?_
  rw [same]
  exact .single (by simpa [Control.plain] using Graph.Red.return (S := []) returns makes)

/-- The control goes on with the frames as they are. -/
theorem goes {k : Control} (stack : t'.stack = t.stack) (control : t'.control.plain = k)
    (reds : H.Reds rule (t.control.plain, []) (k, [])) : t'.Follows H rule c₀ := by
  rw [Follows, stack, control]
  exact follows.advance reds

theorem loops (at' : t.control.plain = .force n false)
    (known : n ∈ t.stack.filterMap Frame.thunk?) (control : t'.control = .fail (.loop n)) :
    t'.Faithful H rule c₀ := by
  rw [Follows, at'] at follows
  exact .loops control (follows.diverges known)

end Follows

end Thread

/-! ## Results from slots -/

namespace Graph

variable {x : Value} {s : Suspension} {F : List Frame}

theorem red_go {k k' : Control} {fs F : List Frame} (acts : H.act? rule k = some (.go fs k')) :
    H.Red rule (k, F) (k', fs ++ F) :=
  .act acts .go

theorem red_back {k : Control} {fs F : List Frame} (returns : H.return? n f = some (.go fs k)) :
    H.Red rule (.give n, f :: F) (k, fs ++ F) :=
  .return returns .go

theorem reds_enter (is : H n = some (.thunk s))
    (memo : H.Reds rule (.force n false, []) (.give v, [])) :
    H.Reds rule (.enter n, F) (.give v, F) := by
  have enters : H.act? rule (.enter n) = some (.go [] (.force n false)) := by
    simp [act?, is, Effect.next]
  exact .head (red_go enters) (Reds.append memo F)

theorem reds_evaluate (is : H n = some (.thunk s)) (value : H v = some (.value x))
    (memo : H.Reds rule (.force n false, []) (.give v, [])) :
    H.Reds rule (.evaluate n, []) (.give v, []) := by
  have asks : H.act? rule (.evaluate n) = some (.go [.again] (.enter n)) := by simp [act?, is]
  have again : H.return? v .again = some (.go [] (.evaluate v)) := rfl
  have done : H.act? rule (.evaluate v) = some (.go [] (.give v)) := by
    simp [act?, value, Effect.next]
  refine .head (red_go asks) ((reds_enter is memo).trans ?_)
  exact .head (red_back again) (.single (red_go done))

theorem reds_call {args : List Arg} (is : H n = some (.thunk s))
    (memo : H.Reds rule (.force n false, []) (.give v, [])) :
    H.Reds rule (.call n args, []) (.apply v args, []) := by
  have asks : H.act? rule (.call n args) = some (.go [.applyTo args] (.enter n)) := by
    simp [act?, is]
  have applies : H.return? v (.applyTo args) = some (.go [] (.apply v args)) := rfl
  exact .head (red_go asks) ((reds_enter is memo).trans (.single (red_back applies)))

end Graph

end LazyGraph
