/-
Module: Conc11.Library.Monitor
Purpose: Objects guarded by a lock.  Every call takes the lock, works on the object action by action and drops the
  lock; whatever the lock is and however the threads interleave, the calls that have returned are a
  sequential run of the object, in the order in which they returned.
Trusted boundary: none
Main exports: Mode, Lock, Monitor, Monitor.Client, Monitor.System, Monitor.Action, Monitor.step, Monitor.machine,
  Monitor.Transition, Monitor.Serial, Monitor.serial_of_reachable, Monitor.Serial.defined
-/
import Mathlib.Logic.Function.Basic
import Conc11.Library.Machine
import Conc11.Library.Program

namespace Conc11.Library

/-- How a thread owns a lock. -/
inductive Mode where
  | shared
  | exclusive
deriving DecidableEq, Repr

/-- A lock as its users see it: its own machine, who owns it, which labels begin
an acquisition and which give the ownership of a thread back.  An exclusive
owner is alone, and an owner stays one until it gives the lock back. -/
structure Lock (L A T : Type*) where
  machine : Machine L A
  holds : L → T → Option Mode
  begins : A → Option (T × Mode)
  releases : A → Option T
  alone : ∀ l, machine.Reachable l → ∀ t u, holds l t = some .exclusive →
    holds l u ≠ none → u = t
  keeps : ∀ l a l', machine.Reachable l → machine.step l a = some l' →
    ∀ t mode, holds l t = some mode → releases a ≠ some t → holds l' t = some mode
  drops : ∀ l a l' t, machine.Reachable l → machine.step l a = some l' → releases a = some t →
    holds l' t = none

/-- An object with its calls: the program of each under the lock, and the mode in
which it asks for the lock.  With a shared lock a call only reads. -/
structure Monitor (κ : Type*) (σ ρ : Type) where
  object : σ
  program : κ → Program σ ρ
  mode : κ → Mode
  reads : ∀ call, mode call = .shared → (program call).Reads

namespace Monitor

variable {L A T κ : Type*} {σ ρ : Type}

/-- Where a thread stands: outside, in a call but not yet past its acquisition of
the lock, or with `rest` of the program of its call to do. -/
inductive Client (κ : Type*) (σ ρ : Type) where
  | idle
  | called (call : κ)
  | inside (call : κ) (rest : Program σ ρ)

/-- `returned` are the calls that have returned, in this order, with their
threads and their results. -/
structure System (L T κ : Type*) (σ ρ : Type) where
  lock : L
  object : σ
  pc : T → Client κ σ ρ
  returned : List (T × κ × ρ)

/-- The labels: a thread calls, the lock takes a step of its own, a thread whose
acquisition is over begins its program, and a thread takes its next action. -/
inductive Action (A T κ : Type*) where
  | call (t : T) (call : κ)
  | lock (a : A)
  | enter (t : T)
  | act (t : T)

section Steps

variable [DecidableEq T] (M : Monitor κ σ ρ) (lock : Lock L A T)

/-- Only a thread that has called begins an acquisition, in the mode of its call. -/
def mayBegin (s : System L T κ σ ρ) (a : A) : Bool :=
  match lock.begins a with
  | some (t, mode) =>
      match s.pc t with
      | .called call => M.mode call == mode
      | _ => false
  | none => true

/-- A thread that gives the lock back has done its program, and its call returns. -/
def leave (s : System L T κ σ ρ) (l : L) (t : T) : Option (System L T κ σ ρ) :=
  match s.pc t with
  | .inside call (.done result) =>
      some { s with
        lock := l
        pc := Function.update s.pc t .idle
        returned := s.returned ++ [(t, call, result)] }
  | _ => none

/-- A step of the lock. -/
def lockStep (s : System L T κ σ ρ) (a : A) : Option (System L T κ σ ρ) :=
  if M.mayBegin lock s a then
    (lock.machine.step s.lock a).bind fun l =>
      match lock.releases a with
      | some t => leave s l t
      | none => some { s with lock := l }
  else none

/-- The next action of a thread. -/
def act (s : System L T κ σ ρ) (t : T) : Option (System L T κ σ ρ) :=
  match s.pc t with
  | .inside call (.act action next) =>
      (action s.object).map fun after =>
        { s with object := after.1, pc := Function.update s.pc t (.inside call (next after.2)) }
  | _ => none

def step (s : System L T κ σ ρ) : Action A T κ → Option (System L T κ σ ρ)
  | .call t call =>
      match s.pc t with
      | .idle => some { s with pc := Function.update s.pc t (.called call) }
      | _ => none
  | .lock a => M.lockStep lock s a
  | .enter t =>
      match s.pc t with
      | .called call =>
          if lock.holds s.lock t = some (M.mode call) then
            some { s with pc := Function.update s.pc t (.inside call (M.program call)) }
          else none
      | _ => none
  | .act t => act s t

def machine : Machine (System L T κ σ ρ) (Action A T κ) :=
  { initial :=
      { lock := lock.machine.initial, object := M.object, pc := fun _ => .idle, returned := [] }
    step := M.step lock }

end Steps

/-! ## What a step can do -/

variable [DecidableEq T] {M : Monitor κ σ ρ} {lock : Lock L A T} {s s' : System L T κ σ ρ}

inductive Transition (M : Monitor κ σ ρ) (lock : Lock L A T) (s : System L T κ σ ρ) :
    Action A T κ → System L T κ σ ρ → Prop where
  | call (t : T) (call : κ) (idle : s.pc t = .idle) :
      Transition M lock s (.call t call) { s with pc := Function.update s.pc t (.called call) }
  | lock (a : A) (l : L) (moved : lock.machine.step s.lock a = some l)
      (kept : lock.releases a = none) : Transition M lock s (.lock a) { s with lock := l }
  | leave (a : A) (l : L) (t : T) (call : κ) (result : ρ)
      (moved : lock.machine.step s.lock a = some l) (released : lock.releases a = some t)
      (ended : s.pc t = .inside call (.done result)) :
      Transition M lock s (.lock a)
        { s with
          lock := l
          pc := Function.update s.pc t .idle
          returned := s.returned ++ [(t, call, result)] }
  | enter (t : T) (call : κ) (called : s.pc t = .called call)
      (owned : lock.holds s.lock t = some (M.mode call)) :
      Transition M lock s (.enter t)
        { s with pc := Function.update s.pc t (.inside call (M.program call)) }
  | act (t : T) (call : κ) {β : Type} (action : σ → Option (σ × β)) (next : β → Program σ ρ)
      (after : σ × β) (working : s.pc t = .inside call (.act action next))
      (acted : action s.object = some after) :
      Transition M lock s (.act t)
        { s with
          object := after.1
          pc := Function.update s.pc t (.inside call (next after.2)) }

theorem transition_of_step {a : Action A T κ} (stepEq : M.step lock s a = some s') :
    Transition M lock s a s' := by
  cases a with
  | call t call =>
      dsimp only [step] at stepEq
      split at stepEq
      next idle =>
        cases stepEq
        exact .call t call idle
      next => cases stepEq
  | lock a =>
      obtain ⟨_, ran⟩ := Option.ite_none_right_eq_some.mp stepEq
      obtain ⟨l, moved, rest⟩ := Option.bind_eq_some_iff.mp ran
      cases released : lock.releases a with
      | none =>
          rw [released] at rest
          cases rest
          exact .lock a l moved released
      | some t =>
          rw [released] at rest
          dsimp only [leave] at rest
          split at rest
          next call result ended =>
            cases rest
            exact .leave a l t call result moved released ended
          next => cases rest
  | enter t =>
      dsimp only [step] at stepEq
      split at stepEq
      next call called =>
        obtain ⟨owned, entered⟩ := Option.ite_none_right_eq_some.mp stepEq
        cases entered
        exact .enter t call called owned
      next => cases stepEq
  | act t =>
      dsimp only [step, act] at stepEq
      split at stepEq
      next call β action next working =>
        obtain ⟨after, acted, moved⟩ := Option.map_eq_some_iff.mp stepEq
        cases moved
        exact .act t call action next after working acted
      next => cases stepEq

/-! ## The invariant -/

/-- `committed` is what the calls that have returned make of the object when they
run one after the other.  It is the object itself unless a call with the
exclusive lock is in the middle of its program; and what such a call has still
to do comes to the same as all of its program from `committed`. -/
structure Serial (M : Monitor κ σ ρ) (lock : Lock L A T) (s : System L T κ σ ρ)
    (committed : σ) : Prop where
  reachable : lock.machine.Reachable s.lock
  legal : Program.runAll M.program M.object (s.returned.map fun call => call.2.1) =
    some (committed, s.returned.map fun call => call.2.2)
  owners : ∀ t call rest, s.pc t = .inside call rest → lock.holds s.lock t = some (M.mode call)
  quiet : (∀ t call rest, s.pc t = .inside call rest → M.mode call = .shared) →
    s.object = committed
  midway : ∀ t call rest, s.pc t = .inside call rest →
    rest.run s.object = (M.program call).run committed
  reads : ∀ t call rest, s.pc t = .inside call rest → M.mode call = .shared → rest.Reads

namespace Serial

variable {committed : σ} {t u : T} {call other : κ} {rest rest' : Program σ ρ}

omit [DecidableEq T] in
/-- Two threads are inside together only with the shared lock. -/
theorem alone (serial : Serial M lock s committed) (inside : s.pc t = .inside call rest)
    (exclusive : M.mode call = .exclusive) (beside : s.pc u = .inside other rest') : u = t := by
  have owned := serial.owners t call rest inside
  rw [exclusive] at owned
  apply lock.alone s.lock serial.reachable t u owned
  rw [serial.owners u other rest' beside]
  exact Option.some_ne_none _

omit [DecidableEq T] in
/-- Beside a thread that owns the lock in shared mode the object is at rest. -/
theorem quiet_of_shared (serial : Serial M lock s committed)
    (owned : lock.holds s.lock t = some .shared) : s.object = committed := by
  refine serial.quiet fun u other rest beside => ?_
  cases mode : M.mode other with
  | shared => rfl
  | exclusive =>
      have ownedU := serial.owners u other rest beside
      rw [mode] at ownedU
      have same := lock.alone s.lock serial.reachable u t ownedU
        (by rw [owned]; exact Option.some_ne_none _)
      subst same
      rw [owned] at ownedU
      cases ownedU

/-- Who is inside after one thread has moved. -/
theorem inside_update {now : Client κ σ ρ}
    (inside : Function.update s.pc t now u = .inside call rest) :
    u = t ∧ now = .inside call rest ∨ u ≠ t ∧ s.pc u = .inside call rest := by
  by_cases same : u = t
  · subst same
    rw [Function.update_self] at inside
    exact .inl ⟨rfl, inside⟩
  · rw [Function.update_of_ne same] at inside
    exact .inr ⟨same, inside⟩

/-- A thread outside its program moves to another such place. -/
theorem outside (serial : Serial M lock s committed) {now : Client κ σ ρ}
    (before : ∀ call rest, s.pc t ≠ .inside call rest)
    (after : ∀ call rest, now ≠ .inside call rest) :
    Serial M lock { s with pc := Function.update s.pc t now } committed := by
  have others : ∀ {u call rest}, Function.update s.pc t now u = .inside call rest →
      s.pc u = .inside call rest := by
    intro u call rest inside
    rcases inside_update inside with ⟨_, isNow⟩ | ⟨_, unmoved⟩
    · exact absurd isNow (after call rest)
    · exact unmoved
  refine ⟨serial.reachable, serial.legal, fun u call rest inside => serial.owners u call rest
    (others inside), fun readers => serial.quiet fun u call rest inside => ?_,
    fun u call rest inside => serial.midway u call rest (others inside),
    fun u call rest inside => serial.reads u call rest (others inside)⟩
  apply readers u call rest
  have moved : u ≠ t := by
    rintro rfl
    exact before call rest inside
  change Function.update s.pc t now u = _
  rwa [Function.update_of_ne moved]

omit [DecidableEq T] in
/-- The lock takes a step with which nobody gives it back. -/
theorem lockMoves (serial : Serial M lock s committed) {a : A} {l : L}
    (moved : lock.machine.step s.lock a = some l) (kept : lock.releases a = none) :
    Serial M lock { s with lock := l } committed := by
  refine ⟨serial.reachable.step trivial moved, serial.legal, fun t call rest inside => ?_,
    serial.quiet, serial.midway, serial.reads⟩
  apply lock.keeps s.lock a l serial.reachable moved t _ (serial.owners t call rest inside)
  rw [kept]
  exact Option.some_ne_none t |>.symm

/-- A thread begins its program: nobody is in the middle of an exclusive call. -/
theorem enter (serial : Serial M lock s committed) (called : s.pc t = .called call)
    (owned : lock.holds s.lock t = some (M.mode call)) :
    Serial M lock { s with pc := Function.update s.pc t (.inside call (M.program call)) }
      committed := by
  have quiet : s.object = committed := by
    cases mode : M.mode call with
    | shared => exact serial.quiet_of_shared (mode ▸ owned)
    | exclusive =>
        -- whoever is inside owns the lock and so is `t`, which has not begun
        refine serial.quiet fun u other rest inside => ?_
        have same := lock.alone s.lock serial.reachable t u (mode ▸ owned)
          (by rw [serial.owners u other rest inside]; exact Option.some_ne_none _)
        subst same
        rw [called] at inside
        cases inside
  refine ⟨serial.reachable, serial.legal, fun u other rest inside => ?_, fun _ => quiet,
    fun u other rest inside => ?_, fun u other rest inside shared => ?_⟩
  all_goals rcases inside_update inside with ⟨rfl, isNow⟩ | ⟨_, unmoved⟩
  · cases isNow
    exact owned
  · exact serial.owners u other rest unmoved
  · cases isNow
    rw [quiet]
  · exact serial.midway u other rest unmoved
  · cases isNow
    exact M.reads _ shared
  · exact serial.reads u other rest unmoved shared

/-- A thread takes an action of its program. -/
theorem act (serial : Serial M lock s committed) {β : Type} {action : σ → Option (σ × β)}
    {next : β → Program σ ρ} {after : σ × β} (working : s.pc t = .inside call (.act action next))
    (acted : action s.object = some after) :
    Serial M lock
      { s with
        object := after.1
        pc := Function.update s.pc t (.inside call (next after.2)) } committed := by
  have reading : M.mode call = .shared → after.1 = s.object := fun shared =>
    (serial.reads t call _ working shared).1 s.object after acted
  have others : ∀ u other rest, u ≠ t → s.pc u = .inside other rest → after.1 = s.object := by
    intro u other rest beside inside
    cases mode : M.mode call with
    | shared => exact reading mode
    | exclusive => exact absurd (serial.alone working mode inside) beside
  refine ⟨serial.reachable, serial.legal, fun u other rest inside => ?_, fun readers => ?_,
    fun u other rest inside => ?_, fun u other rest inside shared => ?_⟩
  · rcases inside_update inside with ⟨rfl, isNow⟩ | ⟨_, unmoved⟩
    · cases isNow
      exact serial.owners u call _ working
    · exact serial.owners u other rest unmoved
  · have shared := readers t call (next after.2) (Function.update_self ..)
    have owned := serial.owners t call _ working
    rw [shared] at owned
    exact (reading shared).trans (serial.quiet_of_shared owned)
  · rcases inside_update inside with ⟨rfl, isNow⟩ | ⟨beside, unmoved⟩
    · cases isNow
      rw [← serial.midway u call _ working, Program.run_act, acted, Option.bind_some]
    · change rest.run after.1 = _
      rw [others u other rest beside unmoved]
      exact serial.midway u other rest unmoved
  · rcases inside_update inside with ⟨rfl, isNow⟩ | ⟨_, unmoved⟩
    · cases isNow
      exact (serial.reads u call _ working shared).2 after.2
    · exact serial.reads u other rest unmoved shared

/-- A thread that has done its program gives the lock back: its call takes effect
at this moment. -/
theorem leave (serial : Serial M lock s committed) {a : A} {l : L} {result : ρ}
    (moved : lock.machine.step s.lock a = some l) (released : lock.releases a = some t)
    (ended : s.pc t = .inside call (.done result)) :
    Serial M lock
      { s with
        lock := l
        pc := Function.update s.pc t .idle
        returned := s.returned ++ [(t, call, result)] } s.object := by
  have ran : (M.program call).run committed = some (s.object, result) :=
    (serial.midway t call _ ended).symm
  have others : ∀ {u other rest}, Function.update s.pc t .idle u = .inside other rest →
      u ≠ t ∧ s.pc u = .inside other rest := by
    intro u other rest inside
    rcases inside_update inside with ⟨_, isNow⟩ | unmoved
    · cases isNow
    · exact unmoved
  refine ⟨serial.reachable.step trivial moved, ?_, fun u other rest inside => ?_, fun _ => rfl,
    fun u other rest inside => ?_, fun u other rest inside =>
      serial.reads u other rest (others inside).2⟩
  · rw [List.map_append, List.map_append]
    exact Program.runAll_concat M.program serial.legal ran
  · obtain ⟨beside, unmoved⟩ := others inside
    apply lock.keeps s.lock a l serial.reachable moved u _ (serial.owners u other rest unmoved)
    rw [released]
    exact fun same => beside (Option.some.inj same).symm
  · obtain ⟨beside, unmoved⟩ := others inside
    have same : s.object = committed := by
      cases mode : M.mode call with
      | shared => exact (M.reads call mode).run_eq ran
      | exclusive => exact absurd (serial.alone ended mode unmoved) beside
    change rest.run s.object = _
    rw [serial.midway u other rest unmoved, same]

theorem transition {a : Action A T κ} (serial : Serial M lock s committed)
    (moved : Transition M lock s a s') :
    ∃ committed', Serial M lock s' committed' := by
  cases moved with
  | call t call idle =>
      exact ⟨committed, serial.outside (by rw [idle]; exact nofun) nofun⟩
  | lock a l moved kept => exact ⟨committed, serial.lockMoves moved kept⟩
  | leave a l t call result moved released ended =>
      exact ⟨s.object, serial.leave moved released ended⟩
  | enter t call called owned => exact ⟨committed, serial.enter called owned⟩
  | act t call action next after working acted => exact ⟨committed, serial.act working acted⟩

end Serial

/-! ## Runs -/

theorem serial_of_reachable {ok : System L T κ σ ρ → Action A T κ → Prop}
    (reachable : (M.machine lock).ReachableUnder ok s) : ∃ committed, Serial M lock s committed := by
  refine reachable.invariant (motive := fun s => ∃ committed, Serial M lock s committed) ?_ ?_
  · exact ⟨M.object, ⟨Machine.ReachableUnder.initial, rfl, nofun, fun _ => rfl, nofun, nofun⟩⟩
  · rintro s a s' _ ⟨committed, serial⟩ _ stepEq
    exact serial.transition (transition_of_step stepEq)

/-- A call that a thread has made and that has not returned. -/
def Client.call? : Client κ σ ρ → Option κ
  | .idle => none
  | .called call | .inside call _ => some call

/-- What holds of every call when it is made holds of all calls, under way and returned. -/
theorem calls_of_reachable (holds : κ → Prop) {ok : System L T κ σ ρ → Action A T κ → Prop}
    (made : ∀ s t call, ok s (.call t call) → holds call)
    (reachable : (M.machine lock).ReachableUnder ok s) :
    (∀ t call, (s.pc t).call? = some call → holds call) ∧
      ∀ entry ∈ s.returned, holds entry.2.1 := by
  refine reachable.invariant
    (motive := fun s => (∀ t call, (s.pc t).call? = some call → holds call) ∧
      ∀ entry ∈ s.returned, holds entry.2.1) ⟨nofun, nofun⟩ ?_
  rintro s a s' _ ⟨underWay, returned⟩ allowed stepEq
  have moves : ∀ {t : T} {now : Client κ σ ρ}, (∀ call, now.call? = some call → holds call) →
      ∀ u call, (Function.update s.pc t now u).call? = some call → holds call := by
    intro t now itself u call isCall
    by_cases same : u = t
    · subst same
      rw [Function.update_self] at isCall
      exact itself call isCall
    · rw [Function.update_of_ne same] at isCall
      exact underWay u call isCall
  have moved : Transition M lock s a s' := transition_of_step stepEq
  cases moved with
  | call t call _ =>
      refine ⟨moves fun other same => ?_, returned⟩
      cases same
      exact made s t call allowed
  | lock a l _ _ => exact ⟨underWay, returned⟩
  | leave a l t call result _ _ ended =>
      refine ⟨moves nofun, fun entry member => ?_⟩
      rcases List.mem_append.mp member with before | new
      · exact returned entry before
      · obtain rfl := List.mem_singleton.mp new
        exact underWay t call (by rw [ended]; rfl)
  | enter t call called _ =>
      refine ⟨moves fun other same => ?_, returned⟩
      cases same
      exact underWay t call (by rw [called]; rfl)
  | act t call _ next after working _ =>
      refine ⟨moves fun other same => ?_, returned⟩
      cases same
      exact underWay t call (by rw [working]; rfl)

omit [DecidableEq T] in
/-- Programs that always come to an end are never in the middle of an undefined
action, whatever the other threads do. -/
theorem Serial.defined {committed : σ} (serial : Serial M lock s committed) {sound : σ → Prop}
    (base : sound M.object)
    (ends : ∀ s call, sound s → ∃ after, (M.program call).run s = some after ∧ sound after.1)
    {t : T} {call : κ} {rest : Program σ ρ} (inside : s.pc t = .inside call rest) :
    ∃ after, rest.run s.object = some after := by
  have kept : sound committed := by
    refine Program.runAll_invariant M.program (fun s call after holds ran => ?_) base serial.legal
    obtain ⟨expected, ranToo, sound'⟩ := ends s call holds
    obtain rfl := Option.some.inj (ran.symm.trans ranToo)
    exact sound'
  obtain ⟨after, ran, _⟩ := ends committed call kept
  exact ⟨after, (serial.midway t call rest inside).trans ran⟩

end Monitor

end Conc11.Library
