/-
Module: Conc11.Semaphore.Seating
Purpose: The wait nodes of `QueuedSemaphore` and the calls that wait at them.  The queued nodes belong to the
  waiting calls, one node for each, and only the first of them can have been signalled; this needs no
  bound on any request.
Trusted boundary: none
Main exports: Waiter, Waiting, came_update, came_concat, signalled, Seated, Seated.initial, Seated.skip,
  Seated.join, Seated.wake, Seated.serve, Seated.requeue, Seated.leave, enqueueAndWait_spec, woken_leaves, woken_requeued
-/
import Conc11.Semaphore.Model

namespace Conc11.Semaphore

open Library

/-! ## The calls in line -/

/-- A waiting call with its node. -/
structure Waiter where
  call : CallId
  timed : Bool
  request : Request
  node : NodeId

/-- Where the call of a waiter stands. -/
def Waiter.pc (w : Waiter) : CallPc := .waiting w.timed w.request w.node

/-- The waiting calls are exactly those of `line`. -/
def Waiting (pc : CallId → CallPc) (line : List Waiter) : Prop :=
  ∀ w : Waiter, pc w.call = w.pc ↔ w ∈ line

namespace Waiting

variable {pc : CallId → CallPc} {line line' l r : List Waiter} {w : Waiter} {c : CallId}
  {now : CallPc}

/-- A call waits at one node at most. -/
theorem unique (waiting : Waiting pc line) {v w : Waiter} (hereV : v ∈ line) (hereW : w ∈ line)
    (same : v.call = w.call) : v = w := by
  have pcs : v.pc = w.pc := by
    rw [← (waiting v).mpr hereV, ← (waiting w).mpr hereW, same]
  obtain ⟨timed, request, node⟩ := CallPc.waiting.inj pcs
  cases v
  cases w
  simp_all

theorem distinct (waiting : Waiting pc line) (nodup : (line.map Waiter.node).Nodup) :
    (line.map Waiter.call).Nodup :=
  nodup.of_map.map_on fun _ hereV _ hereW same => waiting.unique hereV hereW same

theorem update (waiting : Waiting pc line)
    (others : ∀ w : Waiter, w.call ≠ c → (w ∈ line' ↔ w ∈ line))
    (here : ∀ w : Waiter, w.call = c → (now = w.pc ↔ w ∈ line')) :
    Waiting (Function.update pc c now) line' := by
  intro w
  by_cases same : w.call = c
  · rw [same, Function.update_self]
    exact here w same
  · rw [Function.update_of_ne same, others w same]
    exact waiting w

/-- A call outside the line ends. -/
theorem skip (waiting : Waiting pc line) (outside : ∀ w : Waiter, pc c ≠ w.pc)
    (ended : ∀ w : Waiter, now ≠ w.pc) : Waiting (Function.update pc c now) line := by
  refine waiting.update (fun w _ => Iff.rfl) fun w same => ?_
  subst same
  exact iff_of_false (ended w) fun inLine => outside w ((waiting w).mpr inLine)

/-- A call gets in line. -/
theorem join (waiting : Waiting pc line) (outside : ∀ v : Waiter, pc w.call ≠ v.pc) :
    Waiting (Function.update pc w.call w.pc) (line ++ [w]) := by
  refine waiting.update (fun v other => ?_) fun v same => ?_
  · have notW : v ≠ w := fun equal => other (congrArg Waiter.call equal)
    simp [notW]
  · have notIn : v ∉ line := fun inLine => outside v (by rw [← same]; exact (waiting v).mpr inLine)
    rw [List.mem_append, List.mem_singleton, or_iff_right notIn]
    constructor
    · intro pcs
      obtain ⟨timed, request, node⟩ := CallPc.waiting.inj pcs
      cases v
      cases w
      simp_all
    · rintro rfl
      rfl

/-- A call gets out of line. -/
theorem drop (waiting : Waiting pc (l ++ w :: r))
    (nodup : ((l ++ w :: r).map Waiter.node).Nodup) (ended : ∀ v : Waiter, now ≠ v.pc) :
    Waiting (Function.update pc w.call now) (l ++ r) := by
  refine waiting.update (fun v other => ?_) fun v same => ?_
  · have notW : v ≠ w := fun equal => other (congrArg Waiter.call equal)
    simp [notW]
  · refine iff_of_false (ended v) fun inLine => ?_
    have shorter := (List.sublist_cons_self w r).append_left l
    obtain rfl := waiting.unique (shorter.subset inLine) (by simp) same
    have split := (List.perm_middle.nodup_iff).mp nodup.of_map
    exact (List.nodup_cons.mp split).1 inLine

end Waiting

section Came

variable {pc : CallId → CallPc} {arrived : List CallId} {c : CallId} {now : CallPc}

/-- A call that has come may take any place but idle. -/
theorem came_update (came : ∀ d ∈ arrived, pc d ≠ .idle) (notIdle : now ≠ .idle) :
    ∀ d ∈ arrived, Function.update pc c now d ≠ .idle := by
  intro d inArrived
  by_cases same : d = c
  · rw [same, Function.update_self]
    exact notIdle
  · rw [Function.update_of_ne same]
    exact came d inArrived

theorem came_concat (came : ∀ d ∈ arrived, pc d ≠ .idle) (notIdle : now ≠ .idle) :
    ∀ d ∈ arrived ++ [c], Function.update pc c now d ≠ .idle := by
  intro d inArrived
  rcases List.mem_append.mp inArrived with old | new
  · exact came_update came notIdle d old
  · rw [List.mem_singleton.mp new, Function.update_self]
    exact notIdle

end Came

/-- The first in line has been signalled. -/
def signalled (queue : WaitQueue) (line : List Waiter) : Bool :=
  line.head?.any fun w => queue.wakeableOf w.node

section Signalled

variable {queue queue' : WaitQueue} {line rest : List Waiter} {w : Waiter}

theorem signalled_congr (kept : ∀ v ∈ line, queue'.wakeableOf v.node = queue.wakeableOf v.node) :
    signalled queue' line = signalled queue line := by
  cases line with
  | nil => rfl
  | cons first rest => exact kept first List.mem_cons_self

/-- A new last one in line is not signalled. -/
theorem signalled_concat
    (kept : ∀ v ∈ line, queue'.wakeableOf v.node = queue.wakeableOf v.node)
    (asleep : queue'.wakeableOf w.node = false) :
    signalled queue' (line ++ [w]) = signalled queue line := by
  cases line with
  | nil => exact asleep
  | cons first rest => exact kept first List.mem_cons_self

theorem signalled_asleep (asleep : ∀ v ∈ line, queue.wakeableOf v.node = false) :
    signalled queue line = false := by
  cases line with
  | nil => rfl
  | cons first rest => exact asleep first List.mem_cons_self

theorem signalled_wake {due : Prop}
    (woken : ∀ a, queue'.wakeableOf a = true ↔
      queue.wakeableOf a = true ∨ (line.map Waiter.node).head? = some a ∧ due) :
    signalled queue' line = true ↔ signalled queue line = true ∨ line ≠ [] ∧ due := by
  cases line with
  | nil => simp [signalled]
  | cons first rest => simpa [signalled] using woken first.node

/-- Only the first one is woken. -/
theorem asleep_wake {due : Prop} (nodup : (line.map Waiter.node).Nodup)
    (asleep : ∀ v ∈ line.tail, queue.wakeableOf v.node = false)
    (woken : ∀ a, queue'.wakeableOf a = true ↔
      queue.wakeableOf a = true ∨ (line.map Waiter.node).head? = some a ∧ due) :
    ∀ v ∈ line.tail, queue'.wakeableOf v.node = false := by
  intro v behind
  rw [← Bool.not_eq_true, woken v.node, or_iff_right (by rw [asleep v behind]; decide)]
  rintro ⟨isFirst, _⟩
  cases line with
  | nil => cases behind
  | cons first rest =>
      have same : first.node = v.node := Option.some.inj isFirst
      exact (List.nodup_cons.mp nodup).1 (same ▸ List.mem_map_of_mem behind)

end Signalled

/-! ## Nodes and calls -/

/-- The queued nodes belong to the calls in `line`, of whom only the first may
have been signalled. -/
structure Seated (queue : WaitQueue) (pc : CallId → CallPc) (line : List Waiter) : Prop where
  held : ∃ cache, queue.Holds (line.map Waiter.node) cache
  waiting : Waiting pc line
  asleep : ∀ w ∈ line.tail, queue.wakeableOf w.node = false

namespace Seated

theorem initial (n : BitVec 32) : Seated (initial n).sem.queue (initial n).pc [] := by
  refine ⟨WaitQueue.Holds.new, fun w => ?_, fun w behind => ?_⟩
  · exact iff_of_false CallPc.noConfusion List.not_mem_nil
  · exact absurd behind List.not_mem_nil

variable {queue queue' : WaitQueue} {pc : CallId → CallPc} {line rest l r : List Waiter}
  {w : Waiter} {c : CallId} {now : CallPc} {node : NodeId} {due : Prop}

theorem nodup (seated : Seated queue pc line) : (line.map Waiter.node).Nodup := by
  obtain ⟨cache, holds⟩ := seated.held
  exact holds.queue.nodup

theorem isEmpty_iff (seated : Seated queue pc line) : queue.isEmpty = true ↔ line = [] := by
  obtain ⟨cache, holds⟩ := seated.held
  rw [holds.isEmpty_iff, List.map_eq_nil_iff]

/-- Whoever has been signalled stands first. -/
theorem front (seated : Seated queue pc line) (waits : pc w.call = w.pc)
    (wakeable : queue.wakeableOf w.node = true) : ∃ rest, line = w :: rest := by
  have inLine := (seated.waiting w).mp waits
  cases line with
  | nil => cases inLine
  | cons first rest =>
      rcases List.mem_cons.mp inLine with rfl | behind
      · exact ⟨rest, rfl⟩
      · rw [seated.asleep w behind] at wakeable
        cases wakeable

/-- A call outside the line ends, and the queue is as before. -/
theorem skip (seated : Seated queue pc line)
    (after : ∃ cache, queue'.Holds (line.map Waiter.node) cache)
    (kept : ∀ v ∈ line, queue'.wakeableOf v.node = queue.wakeableOf v.node)
    (outside : ∀ v : Waiter, pc c ≠ v.pc) (ended : ∀ v : Waiter, now ≠ v.pc) :
    Seated queue' (Function.update pc c now) line := by
  refine ⟨after, seated.waiting.skip outside ended, fun v behind => ?_⟩
  rw [kept v (List.mem_of_mem_tail behind)]
  exact seated.asleep v behind

/-- A call gets in line with a node at the end of the queue. -/
theorem join (seated : Seated queue pc line)
    (after : ∃ cache, queue'.Holds (line.map Waiter.node ++ [w.node]) cache)
    (kept : ∀ v ∈ line, queue'.wakeableOf v.node = queue.wakeableOf v.node)
    (asleep : queue'.wakeableOf w.node = false) (outside : ∀ v : Waiter, pc w.call ≠ v.pc) :
    Seated queue' (Function.update pc w.call w.pc) (line ++ [w]) := by
  refine ⟨?_, seated.waiting.join outside, fun v behind => ?_⟩
  · rw [List.map_append]
    exact after
  · cases line with
    | nil => cases behind
    | cons first others =>
        rcases List.mem_append.mp behind with old | new
        · rw [kept v (List.mem_cons_of_mem first old)]
          exact seated.asleep v old
        · rw [List.mem_singleton.mp new]
          exact asleep

/-- The head is signalled, or not. -/
theorem wake (seated : Seated queue pc line)
    (after : ∃ cache, queue'.Holds (line.map Waiter.node) cache)
    (woken : ∀ a, queue'.wakeableOf a = true ↔
      queue.wakeableOf a = true ∨ (line.map Waiter.node).head? = some a ∧ due) :
    Seated queue' pc line :=
  ⟨after, seated.waiting, asleep_wake seated.nodup seated.asleep woken⟩

/-- The first call in line goes, and the next one is signalled, or not. -/
theorem serve (seated : Seated queue pc (w :: rest))
    (after : ∃ cache, queue'.Holds (rest.map Waiter.node) cache)
    (woken : ∀ a, queue'.wakeableOf a = true ↔
      queue.wakeableOf a = true ∨ (rest.map Waiter.node).head? = some a ∧ due)
    (ended : ∀ v : Waiter, now ≠ v.pc) : Seated queue' (Function.update pc w.call now) rest := by
  refine ⟨after, seated.waiting.drop (l := []) seated.nodup ended, ?_⟩
  apply asleep_wake (List.nodup_cons.mp seated.nodup).2 _ woken
  exact fun v behind => seated.asleep v (List.mem_of_mem_tail behind)

/-- The first call in line gets behind all others. -/
theorem requeue (seated : Seated queue pc (w :: rest))
    (after : ∃ cache, queue'.Holds (rest.map Waiter.node ++ [node]) cache)
    (kept : ∀ v ∈ rest, queue'.wakeableOf v.node = queue.wakeableOf v.node)
    (asleep : queue'.wakeableOf node = false) :
    Seated queue' (Function.update pc w.call (.waiting w.timed w.request node))
        (rest ++ [{ w with node := node }]) ∧
      ∀ v ∈ rest ++ [{ w with node := node }], queue'.wakeableOf v.node = false := by
  have out : Waiting (Function.update pc w.call .idle) rest :=
    seated.waiting.drop (l := []) seated.nodup fun v => CallPc.noConfusion
  have back := out.join (w := { w with node := node }) fun v => by
    rw [Function.update_self]
    exact CallPc.noConfusion
  rw [Function.update_idem] at back
  have allAsleep : ∀ v ∈ rest ++ [{ w with node := node }], queue'.wakeableOf v.node = false := by
    intro v inLine
    rcases List.mem_append.mp inLine with old | new
    · rw [kept v old]
      exact seated.asleep v old
    · rw [List.mem_singleton.mp new]
      exact asleep
  refine ⟨⟨?_, back, fun v behind => allAsleep v (List.mem_of_mem_tail behind)⟩, allAsleep⟩
  rw [List.map_append]
  exact after

/-- A call gives up its place. -/
theorem leave (seated : Seated queue pc (l ++ w :: r)) (ended : ∀ v : Waiter, now ≠ v.pc) :
    Seated (queue.remove (some w.node)) (Function.update pc w.call now) (l ++ r) ∧
      (queue.remove (some w.node)).wakeableOf = queue.wakeableOf := by
  obtain ⟨cache, holds⟩ := seated.held
  rw [List.map_append, List.map_cons] at holds
  obtain ⟨after, same⟩ := holds.remove
  refine ⟨⟨⟨w.node :: cache, ?_⟩, seated.waiting.drop seated.nodup ended, fun v behind => ?_⟩, same⟩
  · rw [List.map_append]
    exact after
  · rw [same]
    apply seated.asleep
    cases l with
    | nil => exact List.mem_of_mem_tail behind
    | cons first others =>
        exact ((List.sublist_cons_self w r).append_left others).subset behind

end Seated

/-! ## What the sections do to the queue -/

section Sections

variable {sem sem' : QueuedSemaphore} {xs rest cache : List NodeId} {request : Request}
  {budget : Option Nat} {result : Result} {node : NodeId}

/-- The head is signalled if the smallest recorded request can be met. -/
theorem wakeIfDue_holds (sem : QueuedSemaphore) (holds : sem.queue.Holds xs cache) :
    sem.wakeIfDue.queue.Holds xs cache ∧ sem.wakeIfDue.requestRecord = sem.requestRecord ∧
      ∀ a, sem.wakeIfDue.queue.wakeableOf a = true ↔
        sem.queue.wakeableOf a = true ∨
          xs.head? = some a ∧ sem.requestRecordMin.sle sem.permits = true := by
  unfold QueuedSemaphore.wakeIfDue
  split
  next fits =>
    obtain ⟨after, woken⟩ := holds.wakeHead
    refine ⟨after, rfl, fun a => ?_⟩
    rw [woken a, and_iff_left fits]
  next short =>
    refine ⟨holds, rfl, fun a => ?_⟩
    rw [or_iff_left fun awake => short awake.2]

/-- Either an allocation fails and the queue is as before, or the call waits
at the end of the queue and is not signalled. -/
theorem enqueueAndWait_spec (sem : QueuedSemaphore) (holds : sem.queue.Holds xs cache)
    (ran : sem.enqueueAndWait budget = some (sem', result)) :
    sem'.requestRecord = sem.requestRecord ∧
      (∀ a ∈ xs, sem'.queue.wakeableOf a = sem.queue.wakeableOf a) ∧
      ((result = .threw ∧ sem.queue.cacheHead = none ∧ ∃ cache', sem'.queue.Holds xs cache') ∨
        ∃ node, result = .waiting node ∧ sem'.queue.wakeableOf node = false ∧
          ∃ cache', sem'.queue.Holds (xs ++ [node]) cache') := by
  unfold QueuedSemaphore.enqueueAndWait at ran
  split at ran
  next => cases ran
  next queue called =>
    cases ran
    obtain ⟨kept, depleted, after⟩ := holds.enqueue called
    exact ⟨rfl, kept, .inl ⟨rfl, depleted, after⟩⟩
  next queue node called =>
    cases ran
    obtain ⟨kept, _, asleep, after⟩ := holds.enqueue called
    exact ⟨rfl, kept, .inr ⟨node, rfl, asleep, after⟩⟩

/-- A woken call with enough permits takes its node and its request with it
and passes the signal on. -/
theorem woken_leaves (holds : sem.queue.Holds (node :: rest) cache)
    (enough : request.sle sem.permits = true)
    (ran : sem.woken request budget = some (sem', result)) :
    result = (if sem'.permits.slt 0#32 then .terminated else .granted) ∧
      sem'.permits = sem.permits - request ∧
      sem'.requestRecord = (sem.requestRecordRemove request).requestRecord ∧
      (∃ cache', sem'.queue.Holds rest cache') ∧
      ∀ a, sem'.queue.wakeableOf a = true ↔
        sem.queue.wakeableOf a = true ∨
          rest.head? = some a ∧ sem'.requestRecordMin.sle sem'.permits = true := by
  obtain ⟨dequeued, same⟩ := holds.dequeue
  unfold QueuedSemaphore.woken at ran
  dsimp only at ran
  rw [if_pos enough] at ran
  set base : QueuedSemaphore := { sem with queue := sem.queue.dequeue } with base_def
  set debited : QueuedSemaphore :=
    { base.requestRecordRemove request with
      permits := (base.requestRecordRemove request).permits - request } with debited_def
  have left : debited.permits = sem.permits - request := by
    rw [debited_def, permits_requestRecordRemove]
  have record : debited.requestRecord = (sem.requestRecordRemove request).requestRecord :=
    requestRecord_requestRecordRemove
  have holds' : debited.queue.Holds rest (node :: cache) := by
    rw [debited_def, queue_requestRecordRemove]
    exact dequeued
  obtain ⟨holds'', recordSame, woken⟩ := wakeIfDue_holds debited holds'
  have minSame : debited.wakeIfDue.requestRecordMin = debited.requestRecordMin := by
    unfold QueuedSemaphore.requestRecordMin
    rw [recordSame]
  have after : base.leaveLoop request = (debited.wakeIfDue,
      if debited.wakeIfDue.permits.slt 0#32 then .terminated else .granted) := by
    unfold QueuedSemaphore.leaveLoop
    dsimp only
    rw [← debited_def]
    split <;> rfl
  rw [after] at ran
  cases ran
  refine ⟨rfl, permits_wakeIfDue.trans left, recordSame.trans record, ⟨_, holds''⟩, fun a => ?_⟩
  rw [woken a, minSame, permits_wakeIfDue, debited_def, queue_requestRecordRemove, base_def, same]

/-- A woken call with too few permits goes to the end of the queue.  It has
just freed a node, so no allocation is needed. -/
theorem woken_requeued (holds : sem.queue.Holds (node :: rest) cache)
    (short : request.sle sem.permits = false)
    (ran : sem.woken request budget = some (sem', result)) :
    sem'.requestRecord = sem.requestRecord ∧
      (∀ a ∈ rest, sem'.queue.wakeableOf a = sem.queue.wakeableOf a) ∧
      ∃ node', result = .waiting node' ∧ sem'.queue.wakeableOf node' = false ∧
        ∃ cache', sem'.queue.Holds (rest ++ [node']) cache' := by
  obtain ⟨dequeued, same⟩ := holds.dequeue
  unfold QueuedSemaphore.woken at ran
  dsimp only at ran
  rw [if_neg (by rw [short]; exact Bool.false_ne_true)] at ran
  obtain ⟨record, kept, threw | waits⟩ :=
    enqueueAndWait_spec { sem with queue := sem.queue.dequeue } dequeued ran
  · exact absurd (dequeued.free.start_eq.symm.trans threw.2.1) (Option.some_ne_none node)
  · refine ⟨record, fun a inRest => ?_, waits⟩
    rw [kept a inRest, same]

end Sections

end Conc11.Semaphore
