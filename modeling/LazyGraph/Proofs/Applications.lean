import LazyGraph.Proofs.Spines

/-!
# Application is associative

To apply a node to some arguments and the result to others is to apply the node to all of them.
-/

namespace LazyGraph

variable {w : World} {t t' u : Thread} {n : NodeId} {K : List Frame} {xs ys left : List Arg}

/-! ## Moves -/

theorem modify_setIfInBounds {α : Type} {xs : Array α} {i j : Nat} {x : α} (f : α → α) :
    (xs.setIfInBounds i x).modify j f =
      (xs.modify j f).setIfInBounds i (if j = i then f x else x) := by
  apply Array.ext_getElem?
  intro k
  simp only [Array.getElem?_modify, Array.getElem?_setIfInBounds, Array.size_modify]
  grind

theorem push_setIfInBounds {α : Type} {xs : Array α} {i : Nat} {x y : α} (bound : i < xs.size) :
    (xs.setIfInBounds i x).push y = (xs.push y).setIfInBounds i x := by
  apply Array.ext_getElem?
  intro k
  simp only [Array.getElem?_push, Array.getElem?_setIfInBounds, Array.size_setIfInBounds,
    Array.size_push]
  grind

namespace State

/-- The state after some moves. -/
def afterAll (s : State) (ms : List Move) : State :=
  ms.foldl State.after s

/-- What thread `i` deals out in a move. -/
def deal? (i : ThreadId) (depth : Nat) (s : State) : Move → Option Deal
  | .step j => if j = i then (s.threads[i]?).bind (·.deal? depth s.world) else none
  | _ => none

/-- What thread `i` deals out while the moves are made, until nothing is left. -/
def deals (i : ThreadId) (depth : Nat) (s : State) : List Move → List Deal
  | [] => []
  | m :: ms =>
    match s.deal? i depth m with
    | none => (s.after m).deals i depth ms
    | some d => d :: if d.rest = [] then [] else (s.after m).deals i depth ms

/-- While the moves are made, thread `i` is not back over `depth` frames. -/
def Away (i : ThreadId) (depth : Nat) (s : State) (ms : List Move) : Prop :=
  ∀ k < ms.length, ((s.afterAll (ms.take k)).threads[i]?).any (·.isBackAt depth) = false

/-- While the moves are made, thread `i` is not back over `depth` frames, and calls no bytecode over
them. -/
structure Busy (i : ThreadId) (depth : Nat) (s : State) (ms : List Move) : Prop where
  away : ∀ k < ms.length,
    ((s.afterAll (ms.take k)).threads[i]?).any (·.isBackAt depth) = false
  native : ∀ k < ms.length, ((s.afterAll (ms.take k)).threads[i]?).any
    (·.callsBytecode depth (s.afterAll (ms.take k)).world) = false

/-- The states differ in thread `i`, which is `t'` in the second one, and in the log. -/
def Beside (i : ThreadId) (s s' : State) (t' : Thread) : Prop :=
  s'.hushed .log = (s.put i (s.world, t')).hushed .log

end State

/-- What a move makes of thread `i`, if it is not a step of it. -/
def Move.onThread (i : ThreadId) (m : Move) (t : Thread) : Thread :=
  match m with
  | .pass j g => if j = i then t.pass g else t
  | _ => t

namespace State

variable {i : ThreadId} {depth : Nat} {s s' : State} {m : Move} {ms : List Move}

theorem Away.tail (away : s.Away i depth (m :: ms)) : (s.after m).Away i depth ms :=
  fun k bound => away (k + 1) (Nat.succ_lt_succ bound)

theorem Away.head (away : s.Away i depth (m :: ms)) (found : s.threads[i]? = some t) :
    t.isBackAt depth = false := by
  have first := away 0 (Nat.zero_lt_succ _)
  simpa only [List.take_zero, afterAll, List.foldl_nil, found, Option.any_some] using first

theorem Busy.tail (busy : s.Busy i depth (m :: ms)) : (s.after m).Busy i depth ms :=
  ⟨Away.tail busy.away, fun k bound => busy.native (k + 1) (Nat.succ_lt_succ bound)⟩

theorem Busy.head (busy : s.Busy i depth (m :: ms)) (found : s.threads[i]? = some t) :
    t.isBackAt depth = false ∧ t.callsBytecode depth s.world = false := by
  have native := busy.native 0 (Nat.zero_lt_succ _)
  simp only [List.take_zero, afterAll, List.foldl_nil, found, Option.any_some] at native
  exact ⟨Away.head busy.away found, native⟩

theorem found_after (other : m ≠ .step i) (found : s.threads[i]? = some t) :
    (s.after m).threads[i]? = some (m.onThread i t) := by
  have bound := (Array.getElem?_eq_some_iff.1 found).1
  cases m with
  | step j =>
    have apart : j ≠ i := fun same => other (by rw [same])
    simp only [after, step]
    cases s.threads[j]? with
    | none => exact found
    | some u => simpa [put, Move.onThread, apart] using found
  | pass j g =>
    simp only [after, Move.onThread, Array.getElem?_modify, found]
    split <;> rfl
  | start c code env mayStop maySuspend =>
    simp [after, spawn, Move.onThread, Array.getElem?_push, found, Nat.ne_of_lt bound]
  | _ => exact found

theorem put_after (other : m ≠ .step i) (found : s.threads[i]? = some t) (t' : Thread) :
    (s.put i (s.world, t')).after m = (s.after m).put i ((s.after m).world, m.onThread i t') := by
  have bound := (Array.getElem?_eq_some_iff.1 found).1
  cases m with
  | step j =>
    have apart : j ≠ i := fun same => other (by rw [same])
    simp only [after, step, threads_put_other apart]
    cases s.threads[j]? with
    | none => rfl
    | some u =>
      simp only [put, Move.onThread]
      rw [Array.setIfInBounds_comm _ _ apart]
  | pass j g => simp only [after, put, Move.onThread, modify_setIfInBounds]
  | start c code env mayStop maySuspend =>
    simp only [after, spawn, put, Move.onThread, push_setIfInBounds bound]
  | _ => rfl

theorem Beside.found (found : s.threads[i]? = some t) (beside : Beside i s s' t') :
    s'.threads[i]? = some t' := by
  have threads : s'.threads = (s.put i (s.world, t')).threads := (State.mk.inj beside).2
  rw [threads, threads_put found]

theorem Beside.after (other : m ≠ .step i) (found : s.threads[i]? = some t)
    (beside : Beside i s s' t') : Beside i (s.after m) (s'.after m) (m.onThread i t') := by
  have moved := hushed_after_eq (h := .log) (m := m) beside rfl
  rwa [put_after other found] at moved

theorem Beside.put_step (found : s.threads[i]? = some t) (beside : Beside i s s' t') :
    (s'.after (.step i)).hushed .log = (s.put i (t'.step s.world)).hushed .log := by
  have moved := hushed_after_eq (h := .log) (m := .step i) beside rfl
  rwa [show (s.put i (s.world, t')).after (.step i) = _ from step_put found] at moved

theorem Beside.step (found : s.threads[i]? = some t) (beside : Beside i s s' t')
    (resembles : (t.step s.world).1.Resembles (t'.step s.world).1) :
    Beside i (s.after (.step i)) (s'.after (.step i)) (t'.step s.world).2 := by
  have self : s.after (.step i) = s.put i (t.step s.world) := by
    rw [← step_put (x := (s.world, t)) found, put_self found]
    rfl
  have worlds : (t'.step s.world).1.hushed .log = (t.step s.world).1.hushed .log := resembles
  refine (beside.put_step found).trans ?_
  simp [self, put, hushed, worlds]

theorem hushed_afterAll_eq (same : s'.hushed .log = s.hushed .log) :
    (s'.afterAll ms).hushed .log = (s.afterAll ms).hushed .log := by
  induction ms generalizing s s' with
  | nil => exact same
  | cons m ms ih => exact ih (hushed_after_eq same rfl)

/-- How far two applications have come. -/
inductive Halfway (i : ThreadId) (K : List Frame) (ys left : List Arg) (s s' : State)
    (ds : List Deal) : Prop
  | unfinished {u u' rest} (found : s.threads[i]? = some u) (beside : Beside i s s' u')
    (split : ds.flatMap Deal.block ++ rest = left) (more : ∀ d ∈ ds, d.rest ≠ [])
    (prolongs : Prolongs K ys rest u u')
  | last {u u'} (found : s.threads[i]? = some u) (beside : Beside i s s' u')
    (split : ds.flatMap Deal.block = left) (done : ∃ d ∈ ds, d.rest = [])
    (last : Prolongs.Last K ys u u')
  | failed {u rest} (found : s.threads[i]? = some u) (split : ds.flatMap Deal.block ++ rest = left)
    (idle : u.agenda = []) (stack : u.stack = K) (exit : u.control.isExit)

theorem Halfway.deal {d : Deal} {ds : List Deal} (more : d.rest ≠ [])
    (halfway : Halfway i K ys d.rest s s' ds) :
    Halfway i K ys (d.block ++ d.rest) s s' (d :: ds) := by
  cases halfway with
  | unfinished found beside split rest prolongs =>
    exact .unfinished found beside (by rw [List.flatMap_cons, List.append_assoc, split])
      (List.forall_mem_cons.2 ⟨more, rest⟩) prolongs
  | last found beside split done last =>
    obtain ⟨e, known, done⟩ := done
    exact .last found beside (by rw [List.flatMap_cons, split])
      ⟨e, List.mem_cons_of_mem _ known, done⟩ last
  | failed found split idle stack exit =>
    exact .failed found (by rw [List.flatMap_cons, List.append_assoc, split]) idle stack exit

theorem onThread_cases (m : Move) (i : ThreadId) :
    (∃ g, m.onThread i = (·.pass g)) ∨ m.onThread i = id := by
  cases m with
  | pass j g =>
    by_cases same : j = i
    · exact .inl ⟨g, funext fun t => if_pos same⟩
    · exact .inr (funext fun t => if_neg same)
  | _ => exact .inr rfl

theorem deal?_other (other : m ≠ .step i) : s.deal? i depth m = none := by
  cases m with
  | step j => exact if_neg fun same => other (by rw [same])
  | _ => rfl

theorem deal?_step (depth : Nat) (found : s.threads[i]? = some t) :
    s.deal? i depth (.step i) = t.deal? depth s.world := by
  simp [deal?, found]

theorem own_after (found : s.threads[i]? = some t) :
    (s.after (.step i)).threads[i]? = some (t.step s.world).2 :=
  (own_step found).2

end State

namespace SameAbove

variable {K' : List Frame} {i : ThreadId} {s s' : State} {ms : List Move}

theorem onThread (same : SameAbove K K' t t') (m : Move) (i : ThreadId) :
    SameAbove K K' (m.onThread i t) (m.onThread i t') := by
  rcases State.onThread_cases m i with ⟨g, is⟩ | is <;> rw [is]
  · exact same.pass g
  · exact same

/-- Until the thread is back, the frames below make no difference. -/
theorem run (same : SameAbove K K' t t') (found : s.threads[i]? = some t)
    (beside : State.Beside i s s' t') (away : s.Away i K.length ms) :
    ∃ u u', (s.afterAll ms).threads[i]? = some u ∧
      State.Beside i (s.afterAll ms) (s'.afterAll ms) u' ∧ SameAbove K K' u u' := by
  induction ms generalizing s s' t t' with
  | nil => exact ⟨t, t', found, beside, same⟩
  | cons m ms ih =>
    by_cases own : m = .step i
    · subst own
      obtain ⟨resembles, next⟩ := same.step (w := s.world) (away.head found)
      exact ih next (State.own_after found) (beside.step found resembles) away.tail
    · exact ih (same.onThread m i) (State.found_after own found) (beside.after own found) away.tail

end SameAbove

namespace Prolongs

variable {i : ThreadId} {s s' : State} {m : Move} {ms : List Move}

theorem onThread (prolongs : Prolongs K ys left t t') (m : Move) (i : ThreadId) :
    Prolongs K ys left (m.onThread i t) (m.onThread i t') := by
  rcases State.onThread_cases m i with ⟨g, same⟩ | same <;> rw [same]
  · exact prolongs.pass g
  · exact prolongs

theorem run (prolongs : Prolongs K ys left t t') (found : s.threads[i]? = some t)
    (beside : State.Beside i s s' t') (busy : s.Busy i K.length ms) (some : ys ≠ []) :
    State.Halfway i K ys left (s.afterAll ms) (s'.afterAll ms) (s.deals i K.length ms) := by
  induction ms generalizing s s' t t' left with
  | nil =>
    exact .unfinished found beside rfl (fun d known => absurd known List.not_mem_nil) prolongs
  | cons m ms ih =>
    by_cases own : m = .step i
    · subst own
      have after := State.own_after found
      have head := State.deal?_step K.length found
      simp only [State.deals, head]
      cases prolongs.step (busy.head found).2 some with
      | goes none resembles prolongs =>
        rw [none]
        exact ih prolongs after (beside.step found resembles) busy.tail
      | @deals d deals split more resembles prolongs =>
        rw [deals]
        simp only [if_neg more]
        rw [split]
        exact (ih prolongs after (beside.step found resembles) busy.tail).deal more
      | @last d deals split done resembles last =>
        rw [deals]
        simp only [if_pos done]
        obtain ⟨u, u', found', beside', last'⟩ :=
          SameAbove.run last after (beside.step found resembles) busy.tail.away
        exact .last found' beside' (by simp [split]) ⟨d, List.mem_singleton_self d, done⟩ last'
      | fails none idle stack exit =>
        rw [none]
        -- the thread is back, so no move is left
        cases ms with
        | nil => exact .failed after rfl idle stack exit
        | cons m ms =>
          have away := (busy.tail.head after).1
          cases at' : (t.step s.world).2.control <;>
            simp [Thread.isBackAt, idle, stack, at', Control.isExit] at away exit
    · simp only [State.deals, State.deal?_other own]
      exact ih (prolongs.onThread m i) (State.found_after own found)
        (beside.after own found) busy.tail

end Prolongs

namespace State

variable {i : ThreadId} {depth : Nat} {s s' : State} {ms : List Move}

/-- Each block is dealt out in a step of the thread. -/
theorem mem_deals {d : Deal} (known : d ∈ s.deals i depth ms) :
    ∃ k < ms.length, ms[k]? = some (.step i) ∧ ∃ u, (s.afterAll (ms.take k)).threads[i]? = some u ∧
      u.deal? depth (s.afterAll (ms.take k)).world = some d := by
  induction ms generalizing s with
  | nil => cases known
  | cons m ms ih =>
    have later (known : d ∈ (s.after m).deals i depth ms) :
        ∃ k < (m :: ms).length, (m :: ms)[k]? = some (.step i) ∧
          ∃ u, (s.afterAll ((m :: ms).take k)).threads[i]? = some u ∧
            u.deal? depth (s.afterAll ((m :: ms).take k)).world = some d := by
      obtain ⟨k, bound, rest⟩ := ih known
      exact ⟨k + 1, Nat.succ_lt_succ bound, rest⟩
    simp only [deals] at known
    cases dealt : s.deal? i depth m with
    | none => exact later (by rwa [dealt] at known)
    | some e =>
      rw [dealt] at known
      rcases List.mem_cons.1 known with rfl | known
      · by_cases own : m = .step i
        · subst own
          cases found : s.threads[i]? with
          | none => simp [deal?, found] at dealt
          | some u =>
            rw [deal?_step depth found] at dealt
            exact ⟨0, Nat.zero_lt_succ _, rfl, u, found, dealt⟩
        · rw [deal?_other own] at dealt
          cases dealt
      · refine later ?_
        split at known
        · cases known
        · exact known

theorem Busy.take (busy : s.Busy i depth ms) (k : Nat) : s.Busy i depth (ms.take k) := by
  have part {j : Nat} (bound : j < (ms.take k).length) :
      j < ms.length ∧ (ms.take k).take j = ms.take j := by
    rw [List.length_take] at bound
    exact ⟨by omega, by rw [List.take_take, Nat.min_eq_left (by omega)]⟩
  refine ⟨fun j bound => ?_, fun j bound => ?_⟩ <;> rw [(part bound).2]
  · exact busy.away j (part bound).1
  · exact busy.native j (part bound).1

theorem afterAll_append (ms ms' : List Move) :
    s.afterAll (ms ++ ms') = (s.afterAll ms).afterAll ms' :=
  List.foldl_append ..

end State

theorem Thread.isBackAt_over {g : Frame} : (u.over (g :: K)).isBackAt K.length = false := by
  have higher : ¬ u.stack.length + (K.length + 1) = K.length := by omega
  simp [Thread.isBackAt, Thread.over, higher]

namespace Prolongs

/-- As long as arguments are left, neither of the two applications is over. -/
theorem away (prolongs : Prolongs K ys left t t') :
    t.isBackAt K.length = false ∧ t'.isBackAt K.length = false := by
  cases prolongs with
  | calling stack idle at' | reporting stack next at' | called stack idle at' =>
    simp [Thread.isBackAt, at']
  | within => exact ⟨Thread.isBackAt_over, Thread.isBackAt_over⟩

theorem Last.away (last : Last K ys t t') : t'.isBackAt K.length = false := by
  obtain ⟨u, rfl, rfl⟩ := last
  exact Thread.isBackAt_over

/-- The result of the last function is applied to the other arguments. -/
theorem Last.applies {r : NodeId} (last : Last K ys t t') (back : t.isBackAt K.length)
    (gives : t.control = .give r) : t'.step w = (w, { t with control := .apply r ys }) := by
  obtain ⟨u, rfl, rfl⟩ := last
  have at' : u.control = .give r := gives
  simp only [Thread.isBackAt, Thread.over, Bool.and_eq_true, List.isEmpty_iff, beq_iff_eq,
    List.length_append] at back
  obtain ⟨⟨idle, height⟩, -⟩ := back
  have empty : u.stack = [] := List.length_eq_zero_iff.1 (by omega)
  simp [Thread.step, Thread.proceed, Thread.give, Thread.over, Thread.goto, idle, empty, at']

end Prolongs

namespace State

namespace Halfway

variable {ds : List Deal}

theorem split (halfway : Halfway i K ys left s s' ds) : ds.flatMap Deal.block <+: left := by
  cases halfway with
  | unfinished _ _ split | failed _ split => exact ⟨_, split⟩
  | last _ _ split => exact ⟨[], by rw [split, List.append_nil]⟩

/-- An application that has given a result has dealt out all arguments. -/
theorem given {r : NodeId} (halfway : Halfway i K ys left s s' ds) (found : s.threads[i]? = some u)
    (back : u.isBackAt K.length) (gives : u.control = .give r) :
    ds.flatMap Deal.block = left ∧ (s'.after (.step i)).hushed .log =
      (s.put i (s.world, { u with control := .apply r ys })).hushed .log := by
  cases halfway with
  | unfinished found' beside split more prolongs =>
    rw [found] at found'
    cases found'
    rw [prolongs.away.1] at back
    cases back
  | last found' beside split done last =>
    rw [found] at found'
    cases found'
    exact ⟨split, by rw [beside.put_step found, last.applies back gives]⟩
  | failed found' split idle stack exit =>
    rw [found] at found'
    cases found'
    simp [gives, Control.isExit] at exit

/-- What an application calls next gets the arguments that are left. -/
theorem rest_of_call {args : List Arg} (halfway : Halfway i K ys left s s' ds)
    (found : s.threads[i]? = some u) (more : ∀ d ∈ ds, d.rest ≠ []) (idle : u.agenda = [])
    (height : u.stack.length = K.length) (call : u.control = .call n args) :
    ds.flatMap Deal.block ++ args = left := by
  cases halfway with
  | unfinished found' beside split more prolongs =>
    rw [found] at found'
    cases found'
    cases prolongs with
    | calling stack idle at' => simp [at'] at call
    | reporting stack next at' => simp [next] at idle
    | called stack idle at' =>
      rw [at'] at call
      cases call
      exact split
    | within =>
      simp [Thread.over] at height
      omega
  | last found' beside split done last =>
    obtain ⟨d, known, done⟩ := done
    exact absurd done (more d known)
  | failed found' split idle stack exit =>
    rw [found] at found'
    cases found'
    simp [call, Control.isExit] at exit

/-- A longer application is not over before the other one is. -/
theorem away (halfway : Halfway i K ys left s s' ds)
    (runs : ∀ u, s.threads[i]? = some u →
      u.isBackAt K.length = false ∨ ∃ r, u.control = .give r) :
    (s'.threads[i]?).any (·.isBackAt K.length) = false := by
  cases halfway with
  | unfinished found' beside split more prolongs =>
    rw [beside.found found', Option.any_some]
    exact prolongs.away.2
  | last found' beside split done last =>
    rw [beside.found found', Option.any_some]
    exact last.away
  | @failed u _ found split idle stack exit =>
    rcases runs u found with away | ⟨r, gives⟩
    · cases at' : u.control <;>
        simp [Thread.isBackAt, idle, stack, at', Control.isExit] at away exit
    · simp [gives, Control.isExit] at exit

end Halfway

end State

open State

/-- **Application is associative.** Say a node is applied to some arguments, and no bytecode is
called on the way. If this gives a result, the application to more arguments goes on with the
application of the result to the others, from the same state, and it does not end before. Blocks of
the arguments are dealt out one after the other, to functions with just as many parameters. Where
fewer are left than a function has, this is the error, and its code is not run. -/
theorem application_associative {s : State} {i : ThreadId} {f : NodeId} {ms : List Move}
    (found : s.threads[i]? = some t) (idle : t.agenda = []) (at' : t.control = .apply f xs)
    (busy : s.Busy i t.stack.length ms) (found' : (s.afterAll ms).threads[i]? = some u) :
    (∀ r, u.isBackAt t.stack.length → u.control = .give r →
      (s.deals i t.stack.length ms).flatMap Deal.block = xs ∧
      ∀ ys ≠ [], ∀ s', s' = s.put i (s.world, { t with control := .apply f (xs ++ ys) }) →
        (∀ k ≤ ms.length,
          ((s'.afterAll (ms.take k)).threads[i]?).any (·.isBackAt t.stack.length) = false) ∧
        ∀ ms', (s'.afterAll (ms ++ .step i :: ms')).hushed .log =
          (((s.afterAll ms).put i
            ((s.afterAll ms).world, { u with control := .apply r ys })).afterAll ms').hushed .log) ∧
    ((s.deals i t.stack.length ms).flatMap Deal.block <+: xs ∧
      ∀ d ∈ s.deals i t.stack.length ms, ∃ k < ms.length, ms[k]? = some (.step i) ∧
        ∃ v, (s.afterAll (ms.take k)).threads[i]? = some v ∧
          v.Receives (s.afterAll (ms.take k)).world d) ∧
    ∀ n args name arity body env, (∀ d ∈ s.deals i t.stack.length ms, d.rest ≠ []) →
      u.agenda = [] → u.stack.length = t.stack.length → u.control = .call n args →
      (s.deals i t.stack.length ms).flatMap Deal.block ++ args = xs ∧
      ((s.afterAll ms).world.node? n = some (.value (.function name arity body env)) →
        args.length < arity →
        u.step (s.afterAll ms).world =
          ((s.afterAll ms).world, u.goto (.fail (.arityMismatch n arity args.length)))) := by
  have halfway (ys) (some : ys ≠ []) (k) :
      Halfway i t.stack ys xs (s.afterAll (ms.take k))
        ((s.put i (s.world, { t with control := .apply f (xs ++ ys) })).afterAll (ms.take k))
        (s.deals i t.stack.length (ms.take k)) :=
    (Prolongs.calling rfl idle at').run found rfl (busy.take k) some
  have all : ms.take ms.length = ms := List.take_length
  have any := halfway [.pointer 0] (List.cons_ne_nil _ _) ms.length
  rw [all] at any
  refine ⟨fun r back gives => ⟨(any.given found' back gives).1, ?_⟩, ⟨any.split, ?_⟩, ?_⟩
  · rintro ys some s' rfl
    refine ⟨fun k bound => (halfway ys some k).away fun v there => ?_, fun ms' => ?_⟩
    · rcases Nat.lt_or_eq_of_le bound with less | rfl
      · have away := busy.away k less
        rw [there] at away
        exact .inl away
      · rw [all, found'] at there
        cases there
        exact .inr ⟨r, gives⟩
    · have last := halfway ys some ms.length
      rw [all] at last
      rw [afterAll_append]
      exact hushed_afterAll_eq (last.given found' back gives).2
  · intro d known
    obtain ⟨k, bound, turn, v, there, deals⟩ := mem_deals known
    exact ⟨k, bound, turn, v, there, Thread.receives_of_deal? deals⟩
  · intro n args name arity body env more idle height call
    exact ⟨any.rest_of_call found' more idle height call,
      fun function few => Thread.step_few idle call function few⟩

/-- A thread that applies the thunk of `curried`. -/
def applier (args : List Arg) : Thread :=
  { context := 0, control := .apply 3 args }

/-- A thread is about to apply a thunk to two numbers. It comes to a function with one parameter,
whose result is a thunk again; this comes to another function. -/
def curried (arity : Nat) : State :=
  { (({} : State).afterAll
      [.sit false, .build (.scalar (.long 40)), .build (.scalar (.long 3)),
        .build (.scalar (.long 2)),
        .thunk (.lambda "f" 1 (.suspend (.lambda "g" arity
          (.lambda "h" 1 (.arithmetic .difference [.arg 0 2, .arg 0 1, .arg 0 0]))))) []]) with
    threads := #[applier [.pointer 0, .pointer 1]] }

def turns (n : Nat) : List Move :=
  List.replicate n (.step 0)

/-- The thread calls node `n` over no frames. -/
def Thread.callsNode (t : Thread) (n : NodeId) (args : List Arg) : Bool :=
  match t.agenda, t.stack, t.control with
  | [], [], .call m args' => m == n && args' == args
  | _, _, _ => false

theorem Thread.call_of_callsNode {args : List Arg} (calls : t.callsNode n args) :
    t.agenda = [] ∧ t.stack = [] ∧ t.control = .call n args := by
  unfold Thread.callsNode at calls
  split at calls
  · rename_i m args' idle empty at'
    simp only [Bool.and_eq_true, beq_iff_eq] at calls
    exact ⟨idle, empty, by rw [at', calls.1, calls.2]⟩
  · cases calls

theorem World.function_of_any {arity : Nat} (any : (w.node? n).any fun
      | .value (.function _ k _ _) => k == arity
      | _ => false) :
    ∃ name body env, w.node? n = some (.value (.function name arity body env)) := by
  obtain ⟨x, node, function⟩ := (Option.any_eq_true _ _).1 any
  split at function
  · rw [beq_iff_eq.1 function] at node
    exact ⟨_, _, _, node⟩
  · cases function

/-- Both functions get one number each. If the second one has two parameters, it is one number
short. -/
theorem application_associative_curried :
    ((curried 1).deals 0 0 (turns 45)).flatMap Deal.block = [.pointer 0, .pointer 1] ∧
    (∃ u, ((curried 1).afterAll (turns 45)).threads[0]? = some u ∧ u.control = .give 7 ∧
      ∀ ms, (((curried 1).put 0
        ((curried 1).world, applier [.pointer 0, .pointer 1, .pointer 2])).afterAll
          (turns 45 ++ .step 0 :: ms)).hushed .log =
        ((((curried 1).afterAll (turns 45)).put 0 (((curried 1).afterAll (turns 45)).world,
          { u with control := .apply 7 [.pointer 2] })).afterAll ms).hushed .log) ∧
    ∃ u, ((curried 2).afterAll (turns 43)).threads[0]? = some u ∧
      u.control = .call 6 [.pointer 1] ∧
      (u.step ((curried 2).afterAll (turns 43)).world).2.control =
        .fail (.arityMismatch 6 2 1) := by
  have busy : (curried 1).Busy 0 0 (turns 45) := ⟨by decide +kernel, by decide +kernel⟩
  have busy' : (curried 2).Busy 0 0 (turns 43) := ⟨by decide +kernel, by decide +kernel⟩
  have back : (((curried 1).afterAll (turns 45)).threads[0]?).any
      (fun u => u.isBackAt 0 && u.gives 7) = true := by decide +kernel
  have calls : (((curried 2).afterAll (turns 43)).threads[0]?).any
      (·.callsNode 6 [.pointer 1]) = true := by decide +kernel
  have more : ∀ d ∈ (curried 2).deals 0 0 (turns 43), d.rest ≠ [] := by decide +kernel
  obtain ⟨name, body, env, function⟩ : ∃ name body env,
      ((curried 2).afterAll (turns 43)).world.node? 6 = some (.value (.function name 2 body env)) :=
    World.function_of_any (by decide +kernel)
  obtain ⟨u, there, back⟩ := (Option.any_eq_true _ _).1 back
  obtain ⟨v, there', calls⟩ := (Option.any_eq_true _ _).1 calls
  obtain ⟨back, gives⟩ := Bool.and_eq_true_iff.1 back
  obtain ⟨idle, empty, calls⟩ := Thread.call_of_callsNode calls
  obtain ⟨split, longer⟩ := (application_associative (t := applier [.pointer 0, .pointer 1]) rfl rfl
    rfl busy there).1 7 back (Thread.control_of_gives gives)
  refine ⟨split, ⟨u, there, Thread.control_of_gives gives, ?_⟩, v, there', calls, ?_⟩
  · exact (longer [.pointer 2] (List.cons_ne_nil _ _) _ rfl).2
  · have short := ((application_associative (t := applier [.pointer 0, .pointer 1]) rfl rfl rfl
      busy' there').2.2 6 _ name 2 body env more idle (congrArg List.length empty) calls).2 function
        (by decide)
    rw [short]
    rfl

end LazyGraph
