/-
Module: Conc11.SpinLock.FairSpinLock
Purpose: `FairSpinLock` of concurrency/spin_lock.h as a machine over any finite set of threads, one step for
  each access to an atomic counter, and its exclusion and order of service across wrap-around.
Trusted boundary: human-reviewed model; accesses to the counters are taken to be sequentially consistent
Main exports: ThreadPc, System, take, spin, unlock, Action, step, machine, FewInFlight, InLine,
  inLine_of_reachable, first_come_first_served
-/
import Conc11.Library.Machine
import Conc11.Library.Threads
import Conc11.Library.TicketLine

namespace Conc11.SpinLock

open Library

/-!
`next` and `active` are `unsigned int`, `w` bits wide; every result below holds
for each `w`.  `patience` only decides when a spinning thread yields, so it is
left out.
-/

/-- Where a thread stands: outside, in the loop of `lock` with its ticket, or
past the loop.  The ticket of the last is history: `lock` has returned. -/
inductive ThreadPc (w : Nat) where
  | outside
  | spinning (ticket : BitVec w)
  | holding (ticket : BitVec w)
deriving DecidableEq, Repr

namespace ThreadPc

variable {w : Nat}

/-- The ticket of a thread between its `fetch_add` on `next` and its `unlock`. -/
def ticket : ThreadPc w → Option (BitVec w)
  | .outside => none
  | .spinning ticket | .holding ticket => some ticket

def isInFlight (pc : ThreadPc w) : Bool := pc.ticket.isSome

def isHolding : ThreadPc w → Bool
  | .holding _ => true
  | _ => false

end ThreadPc

/-- The two counters, the threads and their history: `taken` are the threads in
the order of their `fetch_add` on `next`, and `entered` in the order in which
they left the loop. -/
structure System (T : Type*) (w : Nat) where
  next : BitVec w
  active : BitVec w
  pc : T → ThreadPc w
  taken : List T
  entered : List T

section Steps

variable {T : Type*} [DecidableEq T] {w : Nat} (s : System T w) (t : T)

/-- The first line of `lock`: `ticket = next.fetch_add(1)`. -/
def take : System T w :=
  { s with
    next := s.next + 1#w
    pc := Function.update s.pc t (.spinning s.next)
    taken := s.taken ++ [t] }

/-- One turn of the loop of `lock`: `active.load() != ticket` goes on. -/
def spin (ticket : BitVec w) : System T w :=
  if s.active != ticket then s
  else
    { s with
      pc := Function.update s.pc t (.holding ticket)
      entered := s.entered ++ [t] }

/-- `unlock`: `active.fetch_add(1)`. -/
def unlock : System T w :=
  { s with
    active := s.active + 1#w
    pc := Function.update s.pc t .outside }

end Steps

/-- The labels.  `lock` starts from outside, and only the holder unlocks. -/
inductive Action (T : Type*) where
  | take (t : T)
  | spin (t : T)
  | unlock (t : T)
deriving DecidableEq, Repr

variable {T : Type*} [DecidableEq T] {w : Nat}

def step (s : System T w) : Action T → Option (System T w)
  | .take t => if s.pc t = .outside then some (take s t) else none
  | .spin t =>
      match s.pc t with
      | .spinning ticket => some (spin s t ticket)
      | _ => none
  | .unlock t => if (s.pc t).isHolding then some (unlock s t) else none

/-- The constructor. -/
def initial (T : Type*) (w : Nat) : System T w :=
  { next := 0#w, active := 0#w, pc := fun _ => .outside, taken := [], entered := [] }

/-- The lock used by the threads `T`, with counters of `w` bits. -/
def machine (T : Type*) [DecidableEq T] (w : Nat) : Machine (System T w) (Action T) :=
  { initial := initial T w, step := step }

/-- The number of threads between their `fetch_add` on `next` and their `unlock`. -/
def System.inFlight [Fintype T] (s : System T w) : Nat := population ThreadPc.isInFlight s.pc

/-- There are always fewer threads in flight than the counters have values. -/
def FewInFlight [Fintype T] (s : System T w) : Action T → Prop
  | .take _ => s.inFlight + 1 < 2 ^ w
  | .spin _ | .unlock _ => True

instance [Fintype T] (s : System T w) : (a : Action T) → Decidable (FewInFlight s a)
  | .take _ => inferInstanceAs (Decidable (s.inFlight + 1 < 2 ^ w))
  | .spin _ | .unlock _ => .isTrue trivial

/-! ## The invariant -/

/-- The threads in flight stand in a line in the order of their tickets; only
its first can be past the loop.  Those that stood before them have entered, and
the first one has if it is past the loop. -/
structure InLine (s : System T w) (early line : List T) : Prop where
  tickets : Ticketed (fun t => (s.pc t).ticket) s.active s.next line
  holder : ∀ t ticket, s.pc t = .holding ticket → ticket = s.active
  taken : s.taken = early ++ line
  waiting : (∀ t, (s.pc t).isHolding = false) → s.entered = early
  entered : ∀ t ticket, s.pc t = .holding ticket → s.entered = early ++ [t]

namespace InLine

variable {s : System T w} {early line : List T} {t : T} {ticket : BitVec w}

omit [DecidableEq T] in
/-- The holder stands first. -/
theorem front (inLine : InLine s early line) (holds : s.pc t = .holding ticket) :
    ∃ rest, line = t :: rest := by
  apply inLine.tickets.front
  rw [holds, inLine.holder t ticket holds]
  rfl

omit [DecidableEq T] in
theorem unique (inLine : InLine s early line) {u : T} {ticket' : BitVec w}
    (holdsT : s.pc t = .holding ticket) (holdsU : s.pc u = .holding ticket') : t = u := by
  obtain ⟨rest, rfl⟩ := inLine.front holdsT
  obtain ⟨others, same⟩ := inLine.front holdsU
  exact (List.cons.inj same).1

/-- The tickets after one thread has moved. -/
theorem ticket_update (now : ThreadPc w) :
    (fun u => (Function.update s.pc t now u).ticket) =
      Function.update (fun u => (s.pc u).ticket) t now.ticket := by
  exact Function.comp_update ThreadPc.ticket s.pc t now

theorem take (inLine : InLine s early line) (outside : s.pc t = .outside)
    (room : line.length + 1 < 2 ^ w) : InLine (take s t) early (line ++ [t]) := by
  have others : ∀ {u ticket}, (SpinLock.take s t).pc u = .holding ticket →
      s.pc u = .holding ticket := by
    intro u ticket holds
    by_cases same : u = t
    · simp [SpinLock.take, same] at holds
    · simpa [SpinLock.take, Function.update_of_ne same] using holds
  refine ⟨?_, fun u ticket holds => inLine.holder u ticket (others holds), ?_, fun nobody => ?_,
    fun u ticket holds => inLine.entered u ticket (others holds)⟩
  · change Ticketed (fun u => (Function.update s.pc t (.spinning s.next) u).ticket) _ _ _
    rw [ticket_update]
    exact inLine.tickets.take (by rw [outside]; rfl) room
  · change s.taken ++ [t] = early ++ (line ++ [t])
    rw [inLine.taken, List.append_assoc]
  · apply inLine.waiting
    intro u
    by_cases same : u = t
    · rw [same, outside]
      rfl
    · have quiet := nobody u
      simpa [SpinLock.take, Function.update_of_ne same] using quiet

/-- The thread whose ticket is due leaves the loop: it is the first in line,
and nobody is past the loop. -/
theorem enter (inLine : InLine s early line) (due : s.pc t = .spinning s.active) :
    InLine
      { s with
        pc := Function.update s.pc t (.holding s.active)
        entered := s.entered ++ [t] } early line := by
  have first : ∃ rest, line = t :: rest := inLine.tickets.front (by rw [due]; rfl)
  obtain ⟨rest, rfl⟩ := first
  have nobody : ∀ u ticket, s.pc u ≠ .holding ticket := by
    intro u ticket holds
    obtain ⟨others, same⟩ := inLine.front holds
    obtain ⟨rfl, _⟩ := List.cons.inj same
    rw [due] at holds
    cases holds
  have entered : s.entered = early := by
    apply inLine.waiting
    intro u
    cases pc : s.pc u with
    | holding ticket => exact absurd pc (nobody u ticket)
    | _ => rfl
  have itself : ∀ u ticket, Function.update s.pc t (.holding s.active) u = .holding ticket →
      u = t ∧ ticket = s.active := by
    intro u ticket holds
    by_cases same : u = t
    · subst same
      rw [Function.update_self] at holds
      exact ⟨rfl, (ThreadPc.holding.inj holds).symm⟩
    · rw [Function.update_of_ne same] at holds
      exact absurd holds (nobody u ticket)
  refine ⟨?_, fun u ticket holds => (itself u ticket holds).2, inLine.taken, fun quiet => ?_,
    fun u ticket holds => ?_⟩
  · have same : (ThreadPc.holding s.active).ticket = (s.pc t).ticket := by rw [due]; rfl
    change Ticketed (fun u => (Function.update s.pc t (.holding s.active) u).ticket) _ _ _
    rw [ticket_update, same, Function.update_eq_self t fun u => (s.pc u).ticket]
    exact inLine.tickets
  · have holds := quiet t
    simp [ThreadPc.isHolding] at holds
  · rw [(itself u ticket holds).1]
    exact congrArg (· ++ [t]) entered

theorem unlock (inLine : InLine s early line) (holds : s.pc t = .holding ticket) :
    ∃ rest, line = t :: rest ∧ InLine (unlock s t) (early ++ [t]) rest := by
  obtain ⟨rest, rfl⟩ := inLine.front holds
  have nobody : ∀ u ticket', (SpinLock.unlock s t).pc u ≠ .holding ticket' := by
    intro u ticket' holdsU
    by_cases same : u = t
    · simp [SpinLock.unlock, same] at holdsU
    · simp only [SpinLock.unlock, Function.update_of_ne same] at holdsU
      exact same (inLine.unique holdsU holds)
  refine ⟨rest, rfl, ?_, fun u ticket' holdsU => absurd holdsU (nobody u ticket'), ?_,
    fun _ => inLine.entered t ticket holds, fun u ticket' holdsU => absurd holdsU (nobody u ticket')⟩
  · change Ticketed (fun u => (Function.update s.pc t .outside u).ticket) _ _ _
    rw [ticket_update]
    exact inLine.tickets.serve
  · change s.taken = early ++ [t] ++ rest
    rw [inLine.taken, List.append_assoc]
    rfl

/-- The line is as long as there are threads in flight. -/
theorem length_eq [Fintype T] (inLine : InLine s early line) : line.length = s.inFlight := by
  rw [← List.toFinset_card_of_nodup inLine.tickets.nodup]
  apply congrArg Finset.card
  ext u
  simp only [List.mem_toFinset, Finset.mem_filter, Finset.mem_univ, true_and]
  exact (inLine.tickets.member u).symm

end InLine

/-! ## Runs -/

variable [Fintype T]

theorem inLine_of_reachable {s : System T w}
    (reachable : (machine T w).ReachableUnder FewInFlight s) :
    ∃ early line, InLine s early line := by
  refine reachable.invariant (motive := fun s => ∃ early line, InLine s early line) ?_ ?_
  · refine ⟨[], [], ⟨List.nodup_nil, fun t => ?_, fun i t place => ?_, ?_, Nat.two_pow_pos w⟩,
      fun t ticket holds => ?_, rfl, fun _ => rfl, fun t ticket holds => ?_⟩
    · exact iff_of_false Bool.false_ne_true List.not_mem_nil
    · cases place
    · exact (BitVec.zero_add 0#w).symm
    · cases holds
    · cases holds
  · rintro s a s' _ ⟨early, line, inLine⟩ allowed stepEq
    cases a with
    | take t =>
        obtain ⟨outside, taken⟩ := Option.ite_none_right_eq_some.mp stepEq
        cases taken
        have few : s.inFlight + 1 < 2 ^ w := allowed
        exact ⟨early, line ++ [t], inLine.take outside (by rwa [inLine.length_eq])⟩
    | spin t =>
        dsimp only [machine, step] at stepEq
        split at stepEq
        next ticket spinning =>
          cases stepEq
          unfold spin
          split
          next => exact ⟨early, line, inLine⟩
          next due =>
            have same : s.active = ticket := by simpa using due
            subst same
            exact ⟨early, line, inLine.enter spinning⟩
        next => cases stepEq
    | unlock t =>
        obtain ⟨isHolding, unlocked⟩ := Option.ite_none_right_eq_some.mp stepEq
        cases unlocked
        cases pc : s.pc t with
        | holding ticket =>
            obtain ⟨rest, _, after⟩ := inLine.unlock pc
            exact ⟨early ++ [t], rest, after⟩
        | _ =>
            rw [pc] at isHolding
            cases isHolding

/-- The tickets of the threads in flight are distinct and are those from
`active` to just below `next`, modulo `2 ^ w`; at most one thread is past the
loop; and threads leave the loop in the order of their `fetch_add` on `next`. -/
theorem first_come_first_served {s : System T w}
    (reachable : (machine T w).ReachableUnder FewInFlight s) :
    (∀ t u ticket, (s.pc t).ticket = some ticket → (s.pc u).ticket = some ticket → t = u) ∧
      (∀ ticket, (∃ t, (s.pc t).ticket = some ticket) ↔
        (ticket - s.active).toNat < (s.next - s.active).toNat) ∧
      (s.next - s.active).toNat = s.inFlight ∧
      (∀ t u, (s.pc t).isHolding = true → (s.pc u).isHolding = true → t = u) ∧
      s.entered <+: s.taken := by
  obtain ⟨early, line, inLine⟩ := inLine_of_reachable reachable
  refine ⟨fun t u ticket hasT hasU => inLine.tickets.inj hasT hasU, inLine.tickets.mem_window,
    inLine.tickets.length_eq.trans inLine.length_eq, fun t u holdsT holdsU => ?_, ?_⟩
  · cases pcT : s.pc t with
    | holding ticketT =>
        cases pcU : s.pc u with
        | holding ticketU => exact inLine.unique pcT pcU
        | _ =>
            rw [pcU] at holdsU
            cases holdsU
    | _ =>
        rw [pcT] at holdsT
        cases holdsT
  · rw [inLine.taken]
    by_cases nobody : ∀ t, (s.pc t).isHolding = false
    · rw [inLine.waiting nobody]
      exact List.prefix_append early line
    · obtain ⟨t, holds⟩ := not_forall.mp nobody
      cases pc : s.pc t with
      | holding ticket =>
          obtain ⟨rest, rfl⟩ := inLine.front pc
          rw [inLine.entered t ticket pc]
          exact ⟨rest, by rw [List.append_assoc]; rfl⟩
      | _ =>
          rw [pc] at holds
          exact absurd rfl holds

/-- With two bits: the counter has wrapped between the tickets of two threads. -/
theorem first_come_first_served_wrapped :
    ∃ s : System (Fin 2) 2, (machine (Fin 2) 2).ReachableUnder FewInFlight s ∧
      s.pc 0 = .holding 3 ∧ s.pc 1 = .spinning 0 ∧ s.next = 1 ∧ (s.next - s.active).toNat = 2 ∧
      s.entered <+: s.taken := by
  obtain ⟨s, run, holds, spins, next, inFlight⟩ : ∃ s : System (Fin 2) 2,
      (machine (Fin 2) 2).execUnder FewInFlight (initial (Fin 2) 2)
        [.take 0, .spin 0, .unlock 0, .take 1, .spin 1, .unlock 1, .take 0, .spin 0, .unlock 0,
          .take 0, .take 1, .spin 0] = some s ∧
      s.pc 0 = .holding 3 ∧ s.pc 1 = .spinning 0 ∧ s.next = 1 ∧ s.inFlight = 2 :=
    ⟨_, rfl, by decide, by decide, by decide, by decide⟩
  have reached := Machine.reachableUnder_of_execUnder run
  obtain ⟨_, _, count, _, inOrder⟩ := first_come_first_served reached
  exact ⟨s, reached, holds, spins, next, count.trans inFlight, inOrder⟩

end Conc11.SpinLock
