/-
Module: Conc11.ScopeGuard.ExactlyOnce
Purpose: Every action is called once, by the guard that is responsible for it, unless this guard is released; what a
  move assignment to a guard that is still armed and a move that throws do instead.
Trusted boundary: none
Main exports: System.custody, System.posts, posts_step, Turn, turn_of_step, Accounted, Kept, kept_of_reachable, Lost,
  lost_of_violation, action_exactly_once
-/
import Conc11.Library.Custody
import Conc11.ScopeGuard.Model

namespace Conc11.ScopeGuard

open Library

/-- The action a guard would call if it were destroyed. -/
def ScopeGuardImpl.armed (this : ScopeGuardImpl) : Option Nat :=
  if this.isReleased then none else this.post

variable {G : Type}

/-- The guards as holders of the actions they are responsible for. -/
def System.custody (s : System G) : Custody G :=
  { held := fun g => (s.guards g).bind ScopeGuardImpl.armed
    issued := s.made }

/-- The actions that the guards store, released or not. -/
def System.posts (s : System G) : Custody G :=
  { held := fun g => (s.guards g).bind ScopeGuardImpl.post
    issued := s.made }

/-- The action has one guard that is responsible for it, or it has been called
once, or its guard has been released. -/
inductive Accounted (s : System G) (n : Nat) : Prop where
  | armed (held : s.custody.Held n) (uncalled : s.calls.count (.post n) = 0)
      (responsible : n ∉ s.relieved)
  | called (done : ¬ s.custody.Held n) (once : s.calls.count (.post n) = 1)
      (responsible : n ∉ s.relieved)
  | released (done : ¬ s.custody.Held n) (uncalled : s.calls.count (.post n) = 0)
      (relieved : n ∈ s.relieved)

/-- The action is gone: no guard will call it, none has and none was released. -/
structure Lost (s : System G) (n : Nat) : Prop where
  made : n < s.made
  unheld : ¬ s.custody.Held n
  uncalled : s.calls.count (.post n) = 0
  responsible : n ∉ s.relieved

variable [DecidableEq G] {s s' : System G} {label : Label G} {g rhs : G}

/-! ## Where the actions are -/

/-- What the guards have after one guard has changed. -/
theorem held_update (f : ScopeGuardImpl → Option Nat) (guards : G → Option ScopeGuardImpl) (g : G)
    (this : Option ScopeGuardImpl) :
    (fun g' => (Function.update guards g this g').bind f) =
      Function.update (fun g' => (guards g').bind f) g (this.bind f) :=
  Function.comp_update (fun this : Option ScopeGuardImpl => this.bind f) guards g this

omit [DecidableEq G] in
theorem held_eq {this : ScopeGuardImpl} (live : s.guards g = some this) :
    s.custody.held g = this.armed := by
  change (s.guards g).bind ScopeGuardImpl.armed = this.armed
  rw [live]
  rfl

omit [DecidableEq G] in
theorem post_eq {this : ScopeGuardImpl} (live : s.guards g = some this) :
    s.posts.held g = this.post := by
  change (s.guards g).bind ScopeGuardImpl.post = this.post
  rw [live]
  rfl

omit [DecidableEq G] in
/-- A guard calls only the action it stores. -/
theorem stored_of_held {n : Nat} (held : s.custody.held g = some n) :
    s.posts.held g = some n := by
  obtain ⟨this, live, armed⟩ := Option.bind_eq_some_iff.mp held
  rw [post_eq live]
  exact (Option.ite_none_left_eq_some.mp armed).2

/-- The guards after a move that does not throw. -/
theorem held_move (f : ScopeGuardImpl → Option Nat) {source : ScopeGuardImpl}
    (live : s.guards rhs = some source)
    (nothing : f { released := true, post := none } = none) :
    (fun g' => (Function.update (Function.update s.guards rhs
        (some { released := true, post := none })) g (some source) g').bind f) =
      Function.update (Function.update (fun g' => (s.guards g').bind f) rhs none) g
        ((s.guards rhs).bind f) := by
  rw [held_update, held_update, live, Option.bind_some, Option.bind_some, nothing]

/-- A guard has changed, but not what it has. -/
theorem held_update_same {f : ScopeGuardImpl → Option Nat} {guards : G → Option ScopeGuardImpl}
    {this : Option ScopeGuardImpl} (same : this.bind f = (guards g).bind f) :
    (fun g' => (Function.update guards g this g').bind f) = fun g' => (guards g').bind f := by
  rw [held_update, same]
  exact Function.update_eq_self g fun g' => (guards g').bind f

omit [DecidableEq G] in
theorem apart_of_free {source : ScopeGuardImpl} (live : s.guards rhs = some source)
    (free : s.guards g = none) : g ≠ rhs := by
  rintro rfl
  rw [live] at free
  cases free

/-- A throwing move changes flags only. -/
theorem posts_throw {source : ScopeGuardImpl} {this : Option ScopeGuardImpl}
    (live : s.guards rhs = some source) (apart : g ≠ rhs)
    (same : this.bind ScopeGuardImpl.post = s.posts.held g) :
    (fun g' => (Function.update (Function.update s.guards rhs
        (some { source with released := true })) g this g').bind ScopeGuardImpl.post) =
      s.posts.held := by
  rw [held_update_same, held_update_same]
  · rfl
  · rw [live]
    rfl
  · rw [Function.update_of_ne apart, same]
    rfl

omit [DecidableEq G] in
theorem sound_of_posts {c : Custody G} (sound : c.Sound) (held : s.posts.held = c.held)
    (made : s.made = c.issued) : s.posts.Sound := by
  have same : s.posts = c := by
    obtain ⟨_, _⟩ := c
    cases held
    cases made
    rfl
  exact same ▸ sound

/-- Every step, also one that throws, leaves each action in one guard at most. -/
theorem posts_step (sound : s.posts.Sound) (stepEq : step s label = some s') : s'.posts.Sound := by
  cases transition_of_step stepEq with
  | @make g withPre free =>
      exact sound_of_posts (sound.issue g) (held_update _ s.guards g _) rfl
  | moveConstruct live free =>
      exact sound_of_posts (sound.hand (apart_of_free live free)) (held_move _ live rfl) rfl
  | @moveConstructThrows g rhs source live free =>
      have nothing : s.posts.held g = none := congrArg (Option.bind · ScopeGuardImpl.post) free
      exact sound_of_posts sound (posts_throw live (apart_of_free live free) nothing.symm) rfl
  | moveAssign isTarget live apart =>
      exact sound_of_posts (sound.hand apart) (held_move _ live rfl) rfl
  | moveAssignThrows isTarget live apart =>
      exact sound_of_posts sound (posts_throw live apart (post_eq isTarget).symm) rfl
  | release live => exact sound_of_posts sound (held_update_same (post_eq live).symm) rfl
  | @destroy g this calls live destroyed =>
      exact sound_of_posts (sound.drop g) (held_update _ s.guards g none) rfl

/-! ## What a step does -/

/-- Every step as what it does with the actions that guards are responsible for.
A move that throws from a guard that has been released releases the target. -/
inductive Turn (s s' : System G) : Label G → Prop where
  | issued {g : G} {withPre : Bool} (empty : s.custody.held g = none)
      (custody : s'.custody = s.custody.issue g)
      (calls : ∀ n, s'.calls.count (.post n) = s.calls.count (.post n))
      (relieved : s'.relieved = s.relieved) : Turn s s' (.make g withPre)
  | handed {label : Label G} {g rhs : G}
      (move : label = .moveConstruct g rhs false ∨ label = .moveAssign g rhs false)
      (apart : g ≠ rhs) (empty : ¬ OntoArmed s label → s.custody.held g = none)
      (custody : s'.custody = s.custody.hand g rhs) (calls : s'.calls = s.calls)
      (relieved : s'.relieved = s.relieved) : Turn s s' label
  | thrown {label : Label G} {g rhs : G}
      (move : label = .moveConstruct g rhs true ∨ label = .moveAssign g rhs true)
      (empty : ¬ OntoArmed s label → s.custody.held g = none)
      (custody : s'.custody = s.custody.drop g) (calls : s'.calls = s.calls)
      (relieved : s'.relieved = s.relieved) : Turn s s' label
  | released {g : G} (custody : s'.custody = s.custody.drop g) (calls : s'.calls = s.calls)
      (relieved : s'.relieved = s.relieved ++ (s.custody.held g).toList) : Turn s s' (.release g)
  | destroyed {g : G} (custody : s'.custody = s.custody.drop g)
      (calls : s'.calls = s.calls ++ (s.custody.held g).toList.map Call.post)
      (relieved : s'.relieved = s.relieved) : Turn s s' (.destroy g)

omit [DecidableEq G] in
theorem held_none_of_free (free : s.guards g = none) : s.custody.held g = none :=
  congrArg (Option.bind · ScopeGuardImpl.armed) free

omit [DecidableEq G] in
/-- A guard that is not armed has nothing to call. -/
theorem held_none_of_unarmed (unarmed : ¬ s.IsArmed g) : s.custody.held g = none := by
  cases live : s.guards g with
  | none => exact held_none_of_free live
  | some this =>
      rw [held_eq live]
      refine if_pos (Bool.of_not_eq_false fun isArmed => unarmed ?_)
      rw [System.IsArmed, live, Option.any_some, isArmed]
      rfl

/-- A throwing move from a guard that has been released leaves a released target. -/
theorem custody_throw {source : ScopeGuardImpl} {this : Option ScopeGuardImpl}
    (nothing : s.custody.held rhs = none)
    (done : this.bind ScopeGuardImpl.armed = none) :
    (fun g' => (Function.update (Function.update s.guards rhs
        (some { source with released := true })) g this g').bind ScopeGuardImpl.armed) =
      Function.update s.custody.held g none := by
  rw [held_update, done, held_update_same]
  · rfl
  · exact nothing.symm

theorem turn_of_step (calm : ¬ ThrowsArmed s label) (stepEq : step s label = some s') :
    Turn s s' label := by
  cases transition_of_step stepEq with
  | make withPre free =>
      refine .issued (held_none_of_free free) ?_ (fun n => ?_) rfl
      · exact congrArg (fun held => (⟨held, s.made + 1⟩ : Custody G)) (held_update _ s.guards _ _)
      · cases withPre with
        | false => rfl
        | true => simp [ScopeGuardImpl.new]
  | moveConstruct live free =>
      exact .handed (.inl rfl) (apart_of_free live free) (fun _ => held_none_of_free free)
        (congrArg (fun held => (⟨held, s.made⟩ : Custody G)) (held_move _ live rfl)) rfl rfl
  | @moveConstructThrows g rhs source live free =>
      refine .thrown (.inl rfl) (fun _ => held_none_of_free free) ?_ rfl rfl
      exact congrArg (fun held => (⟨held, s.made⟩ : Custody G))
        (custody_throw (held_none_of_unarmed calm) rfl)
  | moveAssign isTarget live apart =>
      exact .handed (.inr rfl) apart held_none_of_unarmed
        (congrArg (fun held => (⟨held, s.made⟩ : Custody G)) (held_move _ live rfl)) rfl rfl
  | @moveAssignThrows g rhs target source isTarget live apart =>
      have isReleased : source.released = true := by
        refine Bool.of_not_eq_false fun isArmed => calm ?_
        rw [ThrowsArmed, System.IsArmed, live, Option.any_some, ScopeGuardBase.isReleased, isArmed]
        rfl
      refine .thrown (.inr rfl) held_none_of_unarmed ?_ rfl rfl
      exact congrArg (fun held => (⟨held, s.made⟩ : Custody G))
        (custody_throw (held_none_of_unarmed calm) (if_pos isReleased))
  | @release _ this live =>
      refine .released (congrArg (fun held => (⟨held, s.made⟩ : Custody G))
        (held_update _ s.guards _ _)) rfl ?_
      rw [held_eq live, ScopeGuardImpl.armed]
      cases this.isReleased with
      | true => simp
      | false => simp
  | @destroy _ this calls live destroyed =>
      refine .destroyed (congrArg (fun held => (⟨held, s.made⟩ : Custody G))
        (held_update _ s.guards _ _)) ?_ rfl
      change calls = _
      rw [held_eq live, ScopeGuardImpl.armed]
      unfold ScopeGuardImpl.destroy at destroyed
      split at destroyed
      next isReleased =>
        cases destroyed
        rw [if_pos isReleased]
        simp
      next isArmed =>
        obtain ⟨n, isPost, rfl⟩ := Option.map_eq_some_iff.mp destroyed
        rw [if_neg isArmed, isPost]
        rfl

/-- A guard that is not released has an action to call. -/
def Callable (s : System G) : Prop :=
  ∀ g this, s.guards g = some this → this.isReleased = false → ∃ n, this.post = some n

theorem callable_update {guards : G → Option ScopeGuardImpl} {this : Option ScopeGuardImpl}
    (callable : ∀ g this, guards g = some this → this.isReleased = false → ∃ n, this.post = some n)
    (new : ∀ guard, this = some guard → guard.isReleased = false → ∃ n, guard.post = some n)
    (g' : G) (guard : ScopeGuardImpl) (live : Function.update guards g this g' = some guard)
    (armed : guard.isReleased = false) : ∃ n, guard.post = some n := by
  by_cases same : g' = g
  · subst same
    rw [Function.update_self] at live
    exact new guard live armed
  · rw [Function.update_of_ne same] at live
    exact callable g' guard live armed

/-- A moved guard gets an action with the flag. -/
theorem callable_move {source : ScopeGuardImpl} (callable : Callable s)
    (live : s.guards rhs = some source) (g' : G) (guard : ScopeGuardImpl)
    (liveAfter : Function.update (Function.update s.guards rhs
      (some { released := true, post := none })) g (some source) g' = some guard)
    (armed : guard.isReleased = false) : ∃ n, guard.post = some n := by
  refine callable_update (callable_update callable ?_) ?_ g' guard liveAfter armed
  · rintro _ ⟨⟩ isArmed
    cases isArmed
  · rintro _ ⟨⟩ isArmed
    exact callable rhs source live isArmed

theorem callable_step (callable : Callable s) (calm : ¬ ThrowsArmed s label)
    (stepEq : step s label = some s') : Callable s' := by
  cases transition_of_step stepEq with
  | make withPre free =>
      apply callable_update callable
      rintro _ ⟨⟩ _
      exact ⟨s.made, rfl⟩
  | moveConstruct live free => exact callable_move callable live
  | moveConstructThrows live free =>
      apply callable_update (callable_update callable ?_)
      · rintro _ ⟨⟩
      · rintro _ ⟨⟩ isArmed
        cases isArmed
  | moveAssign isTarget live apart => exact callable_move callable live
  | moveAssignThrows isTarget live apart =>
      apply callable_update (callable_update callable ?_)
      · rintro _ ⟨⟩ isArmed
        -- the flag is that of the source
        refine absurd ?_ calm
        rw [ThrowsArmed, System.IsArmed, live, Option.any_some]
        exact (Bool.not_eq_true' _).mpr isArmed
      · rintro _ ⟨⟩ isArmed
        cases isArmed
  | release live =>
      apply callable_update callable
      rintro _ ⟨⟩ isArmed
      cases isArmed
  | destroy live destroyed =>
      apply callable_update callable
      rintro _ ⟨⟩

/-! ## Runs without a move onto an armed guard -/

structure Kept (s : System G) : Prop where
  posts : s.posts.Sound
  callable : Callable s
  accounted : ∀ n < s.made, Accounted s n
  unissued : ∀ n, s.made ≤ n → s.calls.count (.post n) = 0 ∧ n ∉ s.relieved

omit [DecidableEq G] in
theorem Kept.sound (kept : Kept s) : s.custody.Sound :=
  ⟨fun g g' n held held' => kept.posts.once g g' n (stored_of_held held) (stored_of_held held'),
    fun g n held => kept.posts.issued g n (stored_of_held held)⟩

omit [DecidableEq G] in
/-- An action with which nothing has happened. -/
theorem Accounted.congr {n : Nat} (accounted : Accounted s n)
    (held : s'.custody.Held n ↔ s.custody.Held n)
    (calls : s'.calls.count (.post n) = s.calls.count (.post n))
    (relieved : n ∈ s'.relieved ↔ n ∈ s.relieved) : Accounted s' n := by
  cases accounted with
  | armed isHeld uncalled responsible =>
      exact .armed (held.mpr isHeld) (calls.trans uncalled) (mt relieved.mp responsible)
  | called done once responsible =>
      exact .called (mt held.mp done) (calls.trans once) (mt relieved.mp responsible)
  | released done uncalled isRelieved =>
      exact .released (mt held.mp done) (calls.trans uncalled) (relieved.mpr isRelieved)

omit [DecidableEq G] in
theorem Accounted.uncalled_of_held {n : Nat} (accounted : Accounted s n)
    (held : s.custody.Held n) : s.calls.count (.post n) = 0 ∧ n ∉ s.relieved := by
  cases accounted with
  | armed _ uncalled responsible => exact ⟨uncalled, responsible⟩
  | called done _ _ => exact absurd held done
  | released done _ _ => exact absurd held done

theorem count_called (o : Option Nat) (calls : List Call) (n : Nat) :
    (calls ++ o.toList.map Call.post).count (Call.post n) =
      calls.count (Call.post n) + if o = some n then 1 else 0 := by
  cases o with
  | none => simp
  | some m => simp [List.count_singleton]

theorem kept_step (kept : Kept s) (spared : ¬ OntoArmed s label) (calm : ¬ ThrowsArmed s label)
    (stepEq : step s label = some s') : Kept s' := by
  have posts := posts_step kept.posts stepEq
  have callable := callable_step kept.callable calm stepEq
  cases turn_of_step calm stepEq with
  | issued empty custody calls relieved =>
      have made : s'.made = s.made + 1 := congrArg Custody.issued custody
      refine ⟨posts, callable, fun n below => ?_, fun n above => ?_⟩
      · have held : s'.custody.Held n ↔ s.custody.Held n ∨ n = s.made := by
          rw [custody]
          exact Custody.held_issue empty
        rcases Nat.lt_succ_iff_lt_or_eq.mp (made ▸ below) with old | rfl
        · refine (kept.accounted n old).congr ?_ (calls n) (by rw [relieved])
          rw [held]
          exact or_iff_left (Nat.ne_of_lt old)
        · obtain ⟨uncalled, responsible⟩ := kept.unissued _ (Nat.le_refl _)
          exact .armed (held.mpr (.inr rfl)) ((calls _).trans uncalled) (relieved ▸ responsible)
      · rw [calls n, relieved]
        exact kept.unissued n (by omega)
  | handed move apart empty custody calls relieved =>
      have made : s'.made = s.made := congrArg Custody.issued custody
      refine ⟨posts, callable, fun n below => ?_, fun n above => ?_⟩
      · refine (kept.accounted n (made ▸ below)).congr ?_ (by rw [calls]) (by rw [relieved])
        rw [custody]
        exact Custody.held_hand apart (empty spared)
      · rw [calls, relieved]
        exact kept.unissued n (made ▸ above)
  | thrown move empty custody calls relieved =>
      have made : s'.made = s.made := congrArg Custody.issued custody
      refine ⟨posts, callable, fun n below => ?_, fun n above => ?_⟩
      · refine (kept.accounted n (made ▸ below)).congr ?_ (by rw [calls]) (by rw [relieved])
        rw [custody, kept.sound.held_drop, empty spared]
        exact and_iff_left (Option.some_ne_none n).symm
      · rw [calls, relieved]
        exact kept.unissued n (made ▸ above)
  | @released g custody calls relieved =>
      have made : s'.made = s.made := congrArg Custody.issued custody
      have isRelieved : ∀ n, n ∈ s'.relieved ↔ n ∈ s.relieved ∨ s.custody.held g = some n := by
        intro n
        rw [relieved, List.mem_append, Option.mem_toList]
      have held : ∀ n, s'.custody.Held n ↔ s.custody.Held n ∧ s.custody.held g ≠ some n := by
        intro n
        rw [custody]
        exact kept.sound.held_drop
      refine ⟨posts, callable, fun n below => ?_, fun n above => ?_⟩
      · have accounted := kept.accounted n (made ▸ below)
        by_cases here : s.custody.held g = some n
        · obtain ⟨uncalled, _⟩ := accounted.uncalled_of_held ⟨g, here⟩
          exact .released (fun still => ((held n).mp still).2 here) (calls ▸ uncalled)
            ((isRelieved n).mpr (.inr here))
        · refine accounted.congr ?_ (by rw [calls]) ?_
          · rw [held]
            exact and_iff_left here
          · rw [isRelieved]
            exact or_iff_left here
      · obtain ⟨uncalled, responsible⟩ := kept.unissued n (made ▸ above)
        refine ⟨calls ▸ uncalled, fun isNow => ?_⟩
        rcases (isRelieved n).mp isNow with before | here
        · exact responsible before
        · have below : n < s.made := kept.sound.issued g n here
          omega
  | @destroyed g custody calls relieved =>
      have made : s'.made = s.made := congrArg Custody.issued custody
      have count : ∀ n, s'.calls.count (.post n) =
          s.calls.count (.post n) + if s.custody.held g = some n then 1 else 0 := by
        intro n
        rw [calls, count_called]
      have held : ∀ n, s'.custody.Held n ↔ s.custody.Held n ∧ s.custody.held g ≠ some n := by
        intro n
        rw [custody]
        exact kept.sound.held_drop
      refine ⟨posts, callable, fun n below => ?_, fun n above => ?_⟩
      · have accounted := kept.accounted n (made ▸ below)
        by_cases here : s.custody.held g = some n
        · obtain ⟨uncalled, responsible⟩ := accounted.uncalled_of_held ⟨g, here⟩
          refine .called (fun still => ((held n).mp still).2 here) ?_ (relieved ▸ responsible)
          rw [count, uncalled, if_pos here]
        · refine accounted.congr ?_ ?_ (by rw [relieved])
          · rw [held]
            exact and_iff_left here
          · rw [count, if_neg here, Nat.add_zero]
      · obtain ⟨uncalled, responsible⟩ := kept.unissued n (made ▸ above)
        refine ⟨?_, relieved ▸ responsible⟩
        have notHere : s.custody.held g ≠ some n := by
          intro here
          have below : n < s.made := kept.sound.issued g n here
          omega
        rw [count, uncalled, if_neg notHere]

theorem kept_of_reachable
    (reachable : (machine G).ReachableUnder
      (fun s label => ¬ OntoArmed s label ∧ ¬ ThrowsArmed s label) s) : Kept s := by
  refine reachable.invariant ?_ fun s label s' _ kept ⟨spared, calm⟩ stepEq =>
    kept_step kept spared calm stepEq
  refine ⟨.initial, fun g this live => ?_, fun n below => absurd below (Nat.not_lt_zero n),
    fun n _ => ⟨rfl, List.not_mem_nil⟩⟩
  cases live

omit [DecidableEq G] in
/-- Without a guard that holds it, an action has been called once or released. -/
theorem Accounted.count_eq {n : Nat} (accounted : Accounted s n) (done : ¬ s.custody.Held n) :
    s.calls.count (.post n) = if n ∈ s.relieved then 0 else 1 := by
  cases accounted with
  | armed held _ _ => exact absurd held done
  | called _ once responsible => rw [once, if_neg responsible]
  | released _ uncalled relieved => rw [uncalled, if_pos relieved]

/-- Every guard can be destroyed: it does not call an action that has been moved from. -/
theorem Callable.destroy (callable : Callable s) (live : s.guards g ≠ none) :
    ∃ s', step s (.destroy g) = some s' := by
  obtain ⟨this, isLive⟩ := Option.ne_none_iff_exists'.mp live
  obtain ⟨calls, destroyed⟩ : ∃ calls, this.destroy s.calls = some calls := by
    unfold ScopeGuardImpl.destroy
    cases released : this.isReleased with
    | true => exact ⟨_, rfl⟩
    | false =>
        obtain ⟨n, isPost⟩ := callable g this isLive released
        rw [isPost]
        exact ⟨_, rfl⟩
  refine ⟨{ s with guards := Function.update s.guards g none, calls := calls }, ?_⟩
  rw [step, System.destroy, isLive]
  simp only [destroyed, Option.bind_eq_bind, Option.bind_some, Option.pure_def]

/-! ## Moves that lose an action -/

omit [DecidableEq G] in
theorem Lost.congr {n : Nat} (lost : Lost s n) (made : s.made ≤ s'.made)
    (held : s'.custody.Held n → s.custody.Held n)
    (calls : s'.calls.count (.post n) = s.calls.count (.post n))
    (relieved : n ∈ s'.relieved → n ∈ s.relieved) : Lost s' n :=
  ⟨Nat.lt_of_lt_of_le lost.made made, mt held lost.unheld, calls.trans lost.uncalled,
    mt relieved lost.responsible⟩

/-- A lost action stays lost, unless a guard that has been released with it gets
another guard's flag by a move that throws. -/
theorem lost_step {n : Nat} (lost : Lost s n) (calm : ¬ ThrowsArmed s label)
    (stepEq : step s label = some s') : Lost s' n := by
  have elsewhere : ∀ g, s.custody.held g ≠ some n := fun g has => lost.unheld ⟨g, has⟩
  cases turn_of_step calm stepEq with
  | issued empty custody calls relieved =>
      have more : s'.made = s.made + 1 := congrArg Custody.issued custody
      refine lost.congr (more ▸ Nat.le_succ _) (fun still => ?_) (calls n) (by rw [relieved]; exact id)
      rw [custody, Custody.held_issue empty] at still
      exact still.resolve_right (Nat.ne_of_lt lost.made)
  | handed move apart empty custody calls relieved =>
      have same : s'.made = s.made := congrArg Custody.issued custody
      refine lost.congr (Nat.le_of_eq same.symm) (fun still => ?_) (by rw [calls]) (by rw [relieved]; exact id)
      rw [custody] at still
      exact Custody.held_of_hand apart still
  | thrown move empty custody calls relieved =>
      have same : s'.made = s.made := congrArg Custody.issued custody
      refine lost.congr (Nat.le_of_eq same.symm) (fun still => ?_) (by rw [calls]) (by rw [relieved]; exact id)
      rw [custody] at still
      exact Custody.held_of_drop still
  | @released g custody calls relieved =>
      have same : s'.made = s.made := congrArg Custody.issued custody
      refine lost.congr (Nat.le_of_eq same.symm) (fun still => ?_) (by rw [calls]) (fun isNow => ?_)
      · rw [custody] at still
        exact Custody.held_of_drop still
      · rw [relieved, List.mem_append, Option.mem_toList] at isNow
        exact isNow.resolve_right (elsewhere g)
  | @destroyed g custody calls relieved =>
      have same : s'.made = s.made := congrArg Custody.issued custody
      refine lost.congr (Nat.le_of_eq same.symm) (fun still => ?_) ?_ (by rw [relieved]; exact id)
      · rw [custody] at still
        exact Custody.held_of_drop still
      · rw [calls, count_called, if_neg (elsewhere g), Nat.add_zero]

theorem Lost.later {n : Nat} (lost : Lost s n)
    (later : (machine G).LaterUnder (fun s label => ¬ ThrowsArmed s label) s s') : Lost s' n := by
  induction later with
  | refl => exact lost
  | tail _ step ih =>
      obtain ⟨label, calm, stepEq⟩ := step
      exact lost_step ih calm stepEq

omit [DecidableEq G] in
/-- An armed guard holds an action, with which nothing has happened yet. -/
theorem Kept.holds (kept : Kept s) (armed : s.IsArmed g) :
    ∃ n, s.custody.held g = some n ∧ n < s.made ∧ s.calls.count (.post n) = 0 ∧
      n ∉ s.relieved := by
  obtain ⟨this, live, unreleased⟩ := (Option.any_eq_true _ _).mp armed
  have isArmed : this.isReleased = false := (Bool.not_eq_true' _).mp unreleased
  obtain ⟨n, isPost⟩ := kept.callable g this live isArmed
  have held : s.custody.held g = some n := by
    rw [held_eq live, ScopeGuardImpl.armed, isArmed]
    exact isPost
  have below : n < s.made := kept.sound.issued g n held
  obtain ⟨uncalled, responsible⟩ := (kept.accounted n below).uncalled_of_held ⟨g, held⟩
  exact ⟨n, held, below, uncalled, responsible⟩

/-- The action of the target is lost. -/
theorem lost_of_onto (kept : Kept s) (onto : OntoArmed s label) (calm : ¬ ThrowsArmed s label)
    (stepEq : step s label = some s') : ∃ n, s.custody.Held n ∧ Lost s' n := by
  obtain ⟨g, rhs, throws, rfl⟩ : ∃ g rhs throws, label = .moveAssign g rhs throws := by
    cases label with
    | moveAssign g rhs throws => exact ⟨g, rhs, throws, rfl⟩
    | _ => exact onto.elim
  obtain ⟨n, held, below, uncalled, responsible⟩ := kept.holds onto
  refine ⟨n, ⟨g, held⟩, ?_⟩
  cases turn_of_step calm stepEq with
  | handed move apart empty custody calls relieved =>
      rcases move with isConstruct | isAssign
      · cases isConstruct
      cases isAssign
      have same : s'.made = s.made := congrArg Custody.issued custody
      refine ⟨same ▸ below, ?_, calls ▸ uncalled, relieved ▸ responsible⟩
      rw [custody]
      exact kept.sound.not_held_hand apart held
  | thrown move empty custody calls relieved =>
      rcases move with isConstruct | isAssign
      · cases isConstruct
      cases isAssign
      have same : s'.made = s.made := congrArg Custody.issued custody
      refine ⟨same ▸ below, ?_, calls ▸ uncalled, relieved ▸ responsible⟩
      rw [custody, kept.sound.held_drop]
      exact fun still => still.2 held

/-- No guard but the source stored its action, and the source is released now. -/
theorem unheld_of_throw {source : ScopeGuardImpl} {this : Option ScopeGuardImpl} {n : Nat}
    (sound : s.posts.Sound) (held : s.custody.held rhs = some n)
    (live : s.guards rhs = some source) (apart : g ≠ rhs)
    (same : this.bind ScopeGuardImpl.post = s.posts.held g) (h : G) :
    (Function.update (Function.update s.guards rhs (some { source with released := true })) g this
      h).bind ScopeGuardImpl.armed ≠ some n := by
  intro still
  have stored : s.posts.held h = some n := by
    obtain ⟨guard, isGuard, armed⟩ := Option.bind_eq_some_iff.mp still
    rw [← congrFun (posts_throw live apart same) h, isGuard]
    exact (Option.ite_none_left_eq_some.mp armed).2
  obtain rfl := sound.once h rhs n stored (stored_of_held held)
  rw [Function.update_of_ne apart.symm, Function.update_self] at still
  cases still

/-- The action of the source is lost. -/
theorem lost_of_throw (kept : Kept s) (throws : ThrowsArmed s label)
    (stepEq : step s label = some s') : ∃ n, s.custody.Held n ∧ Lost s' n := by
  cases transition_of_step stepEq with
  | @moveConstructThrows g rhs source live free =>
      obtain ⟨n, held, below, uncalled, responsible⟩ := kept.holds throws
      refine ⟨n, ⟨rhs, held⟩, below, ?_, uncalled, responsible⟩
      rintro ⟨h, still⟩
      have nothing : s.posts.held g = none := congrArg (Option.bind · ScopeGuardImpl.post) free
      refine unheld_of_throw kept.posts held live (apart_of_free live free) ?_ h still
      exact nothing.symm
  | @moveAssignThrows g rhs target source isTarget live apart =>
      obtain ⟨n, held, below, uncalled, responsible⟩ := kept.holds throws
      refine ⟨n, ⟨rhs, held⟩, below, ?_, uncalled, responsible⟩
      rintro ⟨h, still⟩
      refine unheld_of_throw kept.posts held live apart ?_ h still
      exact (post_eq isTarget).symm
  | _ => exact throws.elim

theorem lost_of_violation (kept : Kept s) (violates : OntoArmed s label ∨ ThrowsArmed s label)
    (stepEq : step s label = some s') : ∃ n, s.custody.Held n ∧ Lost s' n := by
  by_cases throws : ThrowsArmed s label
  · exact lost_of_throw kept throws stepEq
  · exact lost_of_onto kept (violates.resolve_right throws) throws stepEq

/-- In every run without a move assignment onto an armed guard and without a move
from an armed guard in which the action's own move throws, and at its end: every
action passed so far has a guard responsible for it, never two, or has been called
once or was released, so that when no guard is left those not released have been
called once; and every guard can be destroyed.  A step of one of these two kinds
loses an action at once, and no step but a throwing move brings it back. -/
theorem action_exactly_once (s : System G)
    (reachable : (machine G).ReachableUnder
      (fun s label => ¬ OntoArmed s label ∧ ¬ ThrowsArmed s label) s) :
    (∀ n < s.made, Accounted s n) ∧ (∀ n, s.made ≤ n → s.calls.count (.post n) = 0) ∧
    (∀ g g' n, s.custody.held g = some n → s.custody.held g' = some n → g = g') ∧
    ((∀ g, s.guards g = none) → ∀ n < s.made,
      s.calls.count (.post n) = if n ∈ s.relieved then 0 else 1) ∧
    (∀ g, s.guards g ≠ none → ∃ s', step s (.destroy g) = some s') ∧
    ∀ label s', OntoArmed s label ∨ ThrowsArmed s label → step s label = some s' →
      ∃ n, s.custody.Held n ∧
        ∀ s'', (machine G).LaterUnder (fun s label => ¬ ThrowsArmed s label) s' s'' →
          Lost s'' n := by
  have kept := kept_of_reachable reachable
  refine ⟨kept.accounted, fun n above => (kept.unissued n above).1, kept.sound.once,
    fun gone n below => ?_, fun g live => kept.callable.destroy live,
    fun label s' violates stepEq => ?_⟩
  · apply (kept.accounted n below).count_eq
    rintro ⟨g, held⟩
    rw [held_none_of_free (gone g)] at held
    cases held
  · obtain ⟨n, held, lost⟩ := lost_of_violation kept violates stepEq
    exact ⟨n, held, fun s'' later => lost.later later⟩

/-- An action that goes to a second guard and from there to a released one, which
calls it.  A move of the released guard has thrown before and changed nothing. -/
theorem action_exactly_once_moved :
    ∃ s, (machine (Fin 3)).ReachableUnder
        (fun s label => ¬ OntoArmed s label ∧ ¬ ThrowsArmed s label) s ∧
      s.made = 2 ∧ Accounted s 0 ∧ s.calls = [.post 0] := by
  have run : ((machine (Fin 3)).execUnder
      (fun s label => ¬ OntoArmed s label ∧ ¬ ThrowsArmed s label) (machine (Fin 3)).initial
      [.make 0 false, .moveConstruct 1 0 false, .make 2 false, .release 2,
        .moveAssign 0 2 true, .moveAssign 2 1 false, .destroy 2]).map
          (fun s => (s.made, s.calls)) = some (2, [.post 0]) := by
    decide
  obtain ⟨s, runs, observed⟩ := Option.map_eq_some_iff.mp run
  obtain ⟨made, calls⟩ := Prod.mk.inj observed
  have reached := Machine.reachableUnder_of_execUnder runs
  exact ⟨s, reached, made, (action_exactly_once s reached).1 0 (by omega), calls⟩

/-- The action of a guard that is assigned to is not called when both guards are destroyed. -/
theorem assigned_action_dropped :
    ((machine (Fin 2)).exec (machine (Fin 2)).initial
      [.make 0 false, .make 1 false, .moveAssign 0 1 false, .destroy 0, .destroy 1]).map
        (fun s => (s.made, s.calls, s.relieved)) = some (2, [.post 1], []) := by
  decide

end Conc11.ScopeGuard
