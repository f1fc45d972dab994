/-
Module: Conc11.Semaphore.Refinement
Purpose: Behind its pointers and counters `QueuedSemaphore` is a waiting line: the queued nodes belong to
  the calls in line, `request_record` counts the recorded requests, and each section of code is one
  move of the line.
Trusted boundary: none
Main exports: Records, Lined, toLine, Shows, Lined.transition, Implements, line_of_reachable
-/
import Conc11.Library.WaitingLine
import Conc11.Semaphore.Conservation
import Conc11.Semaphore.RequestRecord
import Conc11.Semaphore.Seating

namespace Conc11.Semaphore

open Library

/-! ## The recorded requests -/

/-- `request_record` holds each request of `record` with its number of
occurrences, and no request exceeds INT_MAX. -/
structure Records (requestRecord : Std.TreeMap Request Nat) (record : Multiset Nat) : Prop where
  entry : ∀ (request : Request) (count : Nat),
    requestRecord[request]? = some count ↔ record.count request.toNat = count ∧ count ≠ 0
  small : ∀ request ∈ record, request ≤ intMax

theorem Tallied.records {requestRecord : Std.TreeMap Request Nat} {requests : Multiset Request}
    (tallied : Tallied requestRecord requests)
    (small : ∀ request ∈ requests, request.toNat ≤ intMax) :
    Records requestRecord (requests.map BitVec.toNat) := by
  refine ⟨fun request count => ?_, fun recorded member => ?_⟩
  · rw [Multiset.count_map_eq_count' _ _ fun _ _ => BitVec.eq_of_toNat_eq]
    exact tallied request count
  · obtain ⟨request, inRecord, rfl⟩ := Multiset.mem_map.mp member
    exact small request inRecord

namespace Records

variable {sem : QueuedSemaphore} {record : Multiset Nat} {request : Request}

/-- Below INT_MAX a request is known by its number. -/
theorem tallied {requestRecord : Std.TreeMap Request Nat} (records : Records requestRecord record) :
    ∃ requests, Tallied requestRecord requests ∧ requests.map BitVec.toNat = record := by
  have numbers : (record.map (BitVec.ofNat 32)).map BitVec.toNat = record := by
    rw [Multiset.map_map]
    refine (Multiset.map_congr rfl fun recorded member => ?_).trans record.map_id
    have small := records.small recorded member
    unfold intMax at small
    rw [Function.comp_apply, BitVec.toNat_ofNat, Nat.mod_eq_of_lt (by omega), id_eq]
  refine ⟨record.map (BitVec.ofNat 32), fun request count => ?_, numbers⟩
  rw [← Multiset.count_map_eq_count' BitVec.toNat _ fun _ _ => BitVec.eq_of_toNat_eq, numbers]
  exact records.entry request count

theorem empty : Records ∅ 0 :=
  Tallied.empty.records fun request member => absurd member (Multiset.notMem_zero request)

theorem requestRecordInsert (records : Records sem.requestRecord record)
    (small : request.toNat ≤ intMax) :
    Records (sem.requestRecordInsert request).requestRecord (request.toNat ::ₘ record) := by
  obtain ⟨requests, tallied, rfl⟩ := records.tallied
  have inserted : Tallied (sem.requestRecordInsert request).requestRecord (request ::ₘ requests) :=
    tallied.requestRecordInsert
  rw [← Multiset.map_cons BitVec.toNat]
  apply inserted.records
  intro other member
  rcases Multiset.mem_cons.mp member with rfl | old
  · exact small
  · exact records.small _ (Multiset.mem_map_of_mem _ old)

theorem requestRecordRemove (records : Records sem.requestRecord record)
    (recorded : request.toNat ∈ record) :
    Records (sem.requestRecordRemove request).requestRecord (record.erase request.toNat) := by
  obtain ⟨requests, tallied, rfl⟩ := records.tallied
  have inRecord : request ∈ requests := by
    obtain ⟨other, member, same⟩ := Multiset.mem_map.mp recorded
    rwa [← BitVec.eq_of_toNat_eq same]
  have removed := (tallied.requestRecordRemove inRecord).records fun other member =>
    records.small _ (Multiset.mem_map_of_mem _ (Multiset.mem_of_mem_erase member))
  rwa [Multiset.map_erase _ fun _ _ => BitVec.eq_of_toNat_eq] at removed

/-- The test before a signal, with `request_record_min` for the record. -/
theorem due_iff (records : Records sem.requestRecord record)
    (permits : sem.permits.toNat ≤ intMax) :
    sem.requestRecordMin.sle sem.permits = true ↔ Line.Due record sem.permits.toNat := by
  obtain ⟨requests, tallied, rfl⟩ := records.tallied
  rcases tallied.min with ⟨none, zero⟩ | ⟨member, least⟩
  · apply iff_of_true
    · rw [zero, sle_iff (by decide) permits]
      exact Nat.zero_le _
    · rw [none]
      exact .inl (Multiset.map_zero _)
  · have recorded := Multiset.mem_map_of_mem BitVec.toNat member
    rw [sle_iff (records.small _ recorded) permits]
    constructor
    · exact fun fits => .inr ⟨_, recorded, fits⟩
    · rintro (none | ⟨other, otherRecorded, fits⟩)
      · rw [none] at recorded
        exact absurd recorded (Multiset.notMem_zero _)
      · obtain ⟨request, inRecord, rfl⟩ := Multiset.mem_map.mp otherRecorded
        exact (least request inRecord).trans fits

end Records

/-! ## The line -/

/-- The queued nodes belong to the calls in `line`, of whom only the first may
have been signalled, and `request_record` holds the requests of `record`. -/
structure Lined (s : System) (line : List Waiter) (record : Multiset Nat) : Prop where
  held : ∃ cache, s.sem.queue.Holds (line.map Waiter.node) cache
  waiting : Waiting s.pc line
  asleep : ∀ w ∈ line.tail, s.sem.queue.wakeableOf w.node = false
  came : ∀ c ∈ s.arrived, s.pc c ≠ .idle
  records : Records s.sem.requestRecord record

/-- The waiting line that the semaphore implements. -/
def toLine (s : System) (line : List Waiter) (record : Multiset Nat) : Line CallId :=
  { permits := s.sem.permits.toNat
    waiters := line.map fun w => (w.call, w.request.toNat)
    woken := signalled s.sem.queue line
    record := record
    arrived := s.arrived
    queued := s.queued
    granted := s.grants.map Prod.fst
    left := s.left }

/-! ## What the sections do to queue and record -/

section Sections

variable {sem sem' : QueuedSemaphore} {xs rest cache : List NodeId} {record : Multiset Nat}
  {request : Request} {budget : Option Nat} {result : Result} {node : NodeId}

/-- The head is signalled if the smallest recorded request can be met. -/
theorem wakeIfDue_spec (sem : QueuedSemaphore) (holds : sem.queue.Holds xs cache)
    (records : Records sem.requestRecord record) (permits : sem.permits.toNat ≤ intMax) :
    sem.wakeIfDue.queue.Holds xs cache ∧ sem.wakeIfDue.requestRecord = sem.requestRecord ∧
      ∀ a, sem.wakeIfDue.queue.wakeableOf a = true ↔
        sem.queue.wakeableOf a = true ∨ xs.head? = some a ∧ Line.Due record sem.permits.toNat := by
  rw [← records.due_iff permits]
  exact wakeIfDue_holds sem holds

theorem release_spec (request : Request) (holds : sem.queue.Holds xs cache)
    (records : Records sem.requestRecord record)
    (total : sem.permits.toNat + request.toNat ≤ intMax) :
    (sem.release request).permits.toNat = sem.permits.toNat + request.toNat ∧
      (sem.release request).queue.Holds xs cache ∧
      (sem.release request).requestRecord = sem.requestRecord ∧
      ∀ a, (sem.release request).queue.wakeableOf a = true ↔
        sem.queue.wakeableOf a = true ∨
          xs.head? = some a ∧ Line.Due record (sem.permits.toNat + request.toNat) := by
  have credited : (sem.permits + request).toNat = sem.permits.toNat + request.toNat := by
    unfold intMax at total
    rw [BitVec.toNat_add, Nat.mod_eq_of_lt (by omega)]
  obtain ⟨after, recordSame, woken⟩ := wakeIfDue_spec
    { sem with permits := sem.permits + request } holds records (by rw [credited]; exact total)
  rw [credited] at woken
  refine ⟨?_, after, recordSame, woken⟩
  rw [QueuedSemaphore.release, permits_wakeIfDue, credited]

/-- A woken call with enough permits takes its node and its request with it. -/
theorem woken_served (holds : sem.queue.Holds (node :: rest) cache)
    (records : Records sem.requestRecord record) (recorded : request.toNat ∈ record)
    (permits : sem.permits.toNat ≤ intMax) (enough : request.sle sem.permits = true)
    (ran : sem.woken request budget = some (sem', result)) :
    result = .granted ∧ sem'.permits.toNat = sem.permits.toNat - request.toNat ∧
      (∃ cache', sem'.queue.Holds rest cache') ∧
      Records sem'.requestRecord (record.erase request.toNat) ∧
      ∀ a, sem'.queue.wakeableOf a = true ↔ sem.queue.wakeableOf a = true ∨
        rest.head? = some a ∧
          Line.Due (record.erase request.toNat) (sem.permits.toNat - request.toNat) := by
  have fits := (sle_iff (records.small _ recorded) permits).mp enough
  obtain ⟨ended, debited, recordSame, after, woken⟩ := woken_leaves holds enough ran
  have left : sem'.permits.toNat = sem.permits.toNat - request.toNat := by
    rw [debited, toNat_sub fits]
  have remains : sem'.permits.toNat ≤ intMax := by omega
  have records' : Records sem'.requestRecord (record.erase request.toNat) := by
    rw [recordSame]
    exact records.requestRecordRemove recorded
  rw [not_negative remains] at ended
  rw [← left, ← records'.due_iff remains]
  exact ⟨ended, rfl, after, records', woken⟩

end Sections

/-! ## Every section is a move -/

/-- The move that an action makes. -/
inductive Shows (s : System) : Action → Line.Event CallId → Prop where
  | pass (c : CallId) (timed : Bool) (request : Request) (budget : Option Nat) :
      Shows s (.tryAcquire0 c timed request budget) (.pass c request.toNat)
  | join (c : CallId) (timed : Bool) (request : Request) (budget : Option Nat) :
      Shows s (.tryAcquire0 c timed request budget) (.join c request.toNat)
  | fail (c : CallId) (timed : Bool) (request : Request) (budget : Option Nat) :
      Shows s (.tryAcquire0 c timed request budget) (.fail c request.toNat)
  | barge (c : CallId) (request : Request) :
      Shows s (.tryAcquire c request) (.barge c request.toNat)
  | decline (c : CallId) (request : Request) : Shows s (.tryAcquire c request) (.decline c)
  | release (request : Request) : Shows s (.release request) (.release request.toNat)
  | serve (c : CallId) (budget : Option Nat) (timed : Bool) (request : Request) (node : NodeId)
      (waiting : s.pc c = .waiting timed request node)
      (enough : request.sle s.sem.permits = true) : Shows s (.wake c budget) .serve
  | requeue (c : CallId) (budget : Option Nat) (timed : Bool) (request : Request) (node : NodeId)
      (waiting : s.pc c = .waiting timed request node)
      (wakeable : s.sem.queue.wakeableOf node = true)
      (short : request.sle s.sem.permits = false) : Shows s (.wake c budget) .requeue
  | leave (c : CallId) : Shows s (.timeout c) (.leave c)

/-- An action is a move of the line. -/
def Moves (s : System) (line : List Waiter) (record : Multiset Nat) (a : Action)
    (s' : System) : Prop :=
  ∃ line' record' e, Lined s' line' record' ∧ Shows s a e ∧
    (toLine s line record).Step e (toLine s' line' record')

namespace Lined

variable {n : BitVec 32} {s s' : System} {line : List Waiter} {record : Multiset Nat}

theorem seated (lined : Lined s line record) : Seated s.sem.queue s.pc line :=
  ⟨lined.held, lined.waiting, lined.asleep⟩

theorem of_seated (seated : Seated s.sem.queue s.pc line) (came : ∀ c ∈ s.arrived, s.pc c ≠ .idle)
    (records : Records s.sem.requestRecord record) : Lined s line record :=
  ⟨seated.held, seated.waiting, seated.asleep, came, records⟩

theorem fresh (lined : Lined s line record) {c : CallId} (idle : s.pc c = .idle) :
    c ∉ s.arrived :=
  fun arrived => lined.came c arrived idle

/-- Whoever has been signalled stands first. -/
theorem front (lined : Lined s line record) {w : Waiter} (waits : s.pc w.call = w.pc)
    (wakeable : s.sem.queue.wakeableOf w.node = true) : ∃ rest, line = w :: rest :=
  lined.seated.front waits wakeable

theorem tryAcquire0 (conserved : Conserved n s) (lined : Lined s line record) {c : CallId}
    {timed : Bool} {request : Request} {budget : Option Nat} {sem : QueuedSemaphore}
    {result : Result} (small : request.toNat ≤ intMax) (idle : s.pc c = .idle)
    (ran : s.sem.tryAcquire0 request budget = some (sem, result)) :
    Moves s line record (.tryAcquire0 c timed request budget)
      (s.arrive c timed request sem result) := by
  have outside : ∀ w : Waiter, s.pc c ≠ w.pc := fun w => by rw [idle]; exact CallPc.noConfusion
  have fresh := lined.fresh idle
  have seated := lined.seated
  obtain ⟨cache, holds⟩ := lined.held
  unfold QueuedSemaphore.tryAcquire0 at ran
  split at ran
  next fits =>
    cases ran
    obtain ⟨enough, isEmpty⟩ := Bool.and_eq_true_iff.mp fits
    rw [sle_iff small conserved.small] at enough
    obtain rfl := seated.isEmpty_iff.mp isEmpty
    refine ⟨[], record, _, ?_, .pass c timed request budget, ?_⟩
    · refine of_seated ?_ (came_concat lined.came CallPc.noConfusion) lined.records
      exact seated.skip lined.held (fun _ _ => rfl) outside fun w => CallPc.noConfusion
    · have moved := Line.Step.pass (l := toLine s [] record) c request.toNat fresh rfl enough
      simpa [toLine, System.arrive, System.settle, toNat_sub enough] using moved
  next misfit =>
    rw [Bool.and_eq_true_iff, sle_iff small conserved.small, seated.isEmpty_iff] at misfit
    obtain ⟨recordSame, kept, ⟨rfl, _, after⟩ | ⟨node, rfl, asleep, after⟩⟩ :=
      enqueueAndWait_spec _ (by rw [queue_requestRecordInsert]; exact holds) ran
    all_goals
      have permits : sem.permits = s.sem.permits :=
        (enqueueAndWait_effect ran).1.trans permits_requestRecordInsert
      have records : Records sem.requestRecord (request.toNat ::ₘ record) := by
        rw [recordSame]
        exact lined.records.requestRecordInsert small
      rw [queue_requestRecordInsert, List.forall_mem_map] at kept
    · refine ⟨line, request.toNat ::ₘ record, _, ?_, .fail c timed request budget, ?_⟩
      · refine of_seated ?_ (came_concat lined.came CallPc.noConfusion) records
        exact seated.skip after kept outside fun w => CallPc.noConfusion
      · have moved := Line.Step.fail (l := toLine s line record) c request.toNat fresh
        simpa [toLine, System.arrive, System.settle, permits, signalled_congr kept] using moved
    · refine ⟨line ++ [⟨c, timed, request, node⟩], request.toNat ::ₘ record, _, ?_,
        .join c timed request budget, ?_⟩
      · refine of_seated ?_ (came_concat lined.came CallPc.noConfusion) records
        exact seated.join (w := ⟨c, timed, request, node⟩) after kept asleep outside
      · have moved := Line.Step.join (l := toLine s line record) c request.toNat fresh fun none =>
          Nat.lt_of_not_le fun enough => misfit ⟨enough, List.map_eq_nil_iff.mp none⟩
        have same := signalled_concat (w := ⟨c, timed, request, node⟩) kept asleep
        simpa [toLine, System.arrive, System.settle, permits, same] using moved

theorem tryAcquire (lined : Lined s line record) {c : CallId} {request : Request}
    (idle : s.pc c = .idle) :
    Moves s line record (.tryAcquire c request)
      (s.arrive c false request (s.sem.tryAcquire request).1 (s.sem.tryAcquire request).2) := by
  have outside : ∀ w : Waiter, s.pc c ≠ w.pc := fun w => by rw [idle]; exact CallPc.noConfusion
  have fresh := lined.fresh idle
  by_cases fits : request.ule s.sem.permits
  · have ran : s.sem.tryAcquire request =
        ({ s.sem with permits := s.sem.permits - request }, .granted) := if_pos fits
    rw [BitVec.ule, decide_eq_true_iff] at fits
    rw [ran]
    refine ⟨line, record, _, ?_, .barge c request, ?_⟩
    · refine of_seated ?_ (came_concat lined.came CallPc.noConfusion) lined.records
      exact lined.seated.skip lined.held (fun _ _ => rfl) outside fun w => CallPc.noConfusion
    · have moved := Line.Step.barge (l := toLine s line record) c request.toNat fresh fits
      simpa [toLine, System.arrive, System.settle, toNat_sub fits] using moved
  · have ran : s.sem.tryAcquire request = (s.sem, .refused) := if_neg fits
    rw [ran]
    refine ⟨line, record, _, ?_, .decline c request, ?_⟩
    · refine of_seated ?_ (came_concat lined.came CallPc.noConfusion) lined.records
      exact lined.seated.skip lined.held (fun _ _ => rfl) outside fun w => CallPc.noConfusion
    · have moved := Line.Step.decline (l := toLine s line record) c fresh
      simpa [toLine, System.arrive, System.settle] using moved

theorem release (conserved : Conserved n s) (lined : Lined s line record) {request : Request}
    (total : n.toNat + s.released + request.toNat ≤ intMax) :
    Moves s line record (.release request) (s.release request) := by
  obtain ⟨cache, holds⟩ := lined.held
  have balance := conserved.balance
  obtain ⟨credited, after, recordSame, woken⟩ :=
    release_spec request holds lined.records (by omega)
  refine ⟨line, record, _, ?_, .release request, ?_⟩
  · refine of_seated ?_ lined.came (recordSame ▸ lined.records)
    exact lined.seated.wake ⟨cache, after⟩ woken
  · have signals := signalled_wake woken
    have moved := Line.Step.release (l := toLine s line record) request.toNat
      (signalled (s.sem.release request).queue line) (by simpa [toLine] using signals)
    simpa [toLine, System.release, credited] using moved

theorem serve (conserved : Conserved n s) (lined : Lined s line record) {c : CallId}
    {timed : Bool} {request : Request} {node : NodeId} {budget : Option Nat}
    {sem : QueuedSemaphore} {result : Result} (recorded : request.toNat ∈ record)
    (waits : s.pc c = .waiting timed request node)
    (wakeable : s.sem.queue.wakeableOf node = true) (enough : request.sle s.sem.permits = true)
    (ran : s.sem.woken request budget = some (sem, result)) :
    Moves s line record (.wake c budget) (s.settle c timed request sem result) := by
  obtain ⟨rest, rfl⟩ := lined.front (w := ⟨c, timed, request, node⟩) waits wakeable
  obtain ⟨cache, holds⟩ := lined.held
  have fits := (sle_iff (lined.records.small _ recorded) conserved.small).mp enough
  obtain ⟨rfl, permits, after, records, woken⟩ :=
    woken_served holds lined.records recorded conserved.small enough ran
  have quiet : signalled s.sem.queue rest = false := signalled_asleep lined.asleep
  refine ⟨rest, record.erase request.toNat, _, ?_,
    .serve c budget timed request node waits enough, ?_⟩
  · refine of_seated ?_ (came_update lined.came CallPc.noConfusion) records
    exact lined.seated.serve after woken fun v => CallPc.noConfusion
  · have signals : signalled sem.queue rest = true ↔ rest ≠ [] ∧
        Line.Due (record.erase request.toNat) (s.sem.permits.toNat - request.toNat) := by
      rw [signalled_wake woken, quiet, or_iff_right Bool.false_ne_true]
    have moved := Line.Step.serve
      (l := toLine s (⟨c, timed, request, node⟩ :: rest) record) c request.toNat
      (rest.map fun w => (w.call, w.request.toNat)) (signalled sem.queue rest) rfl wakeable fits
      (by simpa [toLine] using signals)
    simpa [toLine, System.settle, permits] using moved

theorem requeue (conserved : Conserved n s) (lined : Lined s line record) {c : CallId}
    {timed : Bool} {request : Request} {node : NodeId} {budget : Option Nat}
    {sem : QueuedSemaphore} {result : Result} (recorded : request.toNat ∈ record)
    (waits : s.pc c = .waiting timed request node)
    (wakeable : s.sem.queue.wakeableOf node = true) (short : request.sle s.sem.permits = false)
    (ran : s.sem.woken request budget = some (sem, result)) :
    Moves s line record (.wake c budget) (s.settle c timed request sem result) := by
  obtain ⟨rest, rfl⟩ := lined.front (w := ⟨c, timed, request, node⟩) waits wakeable
  obtain ⟨cache, holds⟩ := lined.held
  have small := lined.records.small _ recorded
  obtain ⟨recordSame, kept, node', rfl, asleep, after⟩ := woken_requeued holds short ran
  rw [List.forall_mem_map] at kept
  have permits : sem.permits = s.sem.permits := by
    cases woken_effect conserved.small small ran with
    | keep _ _ _ same => exact same
  have misfit : s.sem.permits.toNat < request.toNat := by
    rw [← Nat.not_le, ← sle_iff small conserved.small, short]
    exact Bool.false_ne_true
  obtain ⟨seated, restAsleep⟩ := lined.seated.requeue after kept asleep
  refine ⟨rest ++ [⟨c, timed, request, node'⟩], record, _, ?_,
    .requeue c budget timed request node waits wakeable short, ?_⟩
  · exact of_seated seated (came_update lined.came CallPc.noConfusion) (recordSame ▸ lined.records)
  · have quiet := signalled_asleep restAsleep
    have moved := Line.Step.requeue
      (l := toLine s (⟨c, timed, request, node⟩ :: rest) record) c request.toNat
      (rest.map fun w => (w.call, w.request.toNat)) rfl wakeable misfit
    simpa [toLine, System.settle, permits, quiet] using moved

theorem timeout (lined : Lined s line record) {c : CallId} {request : Request} {node : NodeId}
    (waits : s.pc c = .waiting true request node)
    (asleep : s.sem.queue.wakeableOf node = false) :
    Moves s line record (.timeout c) (s.leave c request node) := by
  obtain ⟨l, r, rfl⟩ := List.append_of_mem ((lined.waiting ⟨c, true, request, node⟩).mp waits)
  have refused : ∀ v : Waiter, CallPc.returned false ≠ v.pc := fun v => CallPc.noConfusion
  obtain ⟨seated, wakeables⟩ := lined.seated.leave refused
  have quiet : signalled (s.sem.queue.remove (some node)) (l ++ r) =
      signalled s.sem.queue (l ++ ⟨c, true, request, node⟩ :: r) := by
    rw [signalled_congr fun v _ => congrFun wakeables v.node]
    cases l with
    | nil => exact (signalled_asleep lined.asleep).trans asleep.symm
    | cons first others => rfl
  refine ⟨l ++ r, record, _, ?_, .leave c, ?_⟩
  · exact of_seated seated (came_update lined.came CallPc.noConfusion) lined.records
  · have moved := Line.Step.leave
      (l := toLine s (l ++ ⟨c, true, request, node⟩ :: r) record) c request.toNat
      (l.map fun w => (w.call, w.request.toNat)) (r.map fun w => (w.call, w.request.toNat))
      (by simp [toLine]) fun first => by
        rw [List.map_eq_nil_iff] at first
        subst first
        exact asleep
    simpa [toLine, System.leave, System.settle, QueuedSemaphore.timedOut, quiet] using moved

theorem transition {a : Action} (conserved : Conserved n s) (lined : Lined s line record)
    (covered : (toLine s line record).Covered) (allowed : TotalsWithinInt n s a)
    (moved : Transition s a s') : Moves s line record a s' := by
  cases moved with
  | tryAcquire0 c timed request budget sem result idle ran =>
      exact lined.tryAcquire0 conserved allowed idle ran
  | tryAcquire c request idle => exact lined.tryAcquire idle
  | release request => exact lined.release conserved allowed
  | wake c budget timed request node sem result waits wakeable ran =>
      have recorded : request.toNat ∈ record :=
        covered.recorded (w := (c, request.toNat))
          (List.mem_map_of_mem ((lined.waiting ⟨c, timed, request, node⟩).mp waits))
      cases fits : request.sle s.sem.permits with
      | true => exact lined.serve conserved recorded waits wakeable fits ran
      | false => exact lined.requeue conserved recorded waits wakeable fits ran
  | timeout c request node waits asleep => exact lined.timeout waits asleep

end Lined

/-- The semaphore implements a line. -/
def Implements (s : System) (line : List Waiter) (record : Multiset Nat) : Prop :=
  Lined s line record ∧ (toLine s line record).Covered

theorem implements_initial (n : BitVec 32) : Implements (initial n) [] 0 := by
  refine ⟨⟨WaitQueue.Holds.new, fun w => ?_, ?_, ?_, .empty⟩, ?_⟩
  · exact iff_of_false CallPc.noConfusion List.not_mem_nil
  · exact fun w behind => absurd behind List.not_mem_nil
  · exact fun c arrived => absurd arrived List.not_mem_nil
  · exact ⟨le_refl 0, fun _ => rfl, List.nodup_nil, fun c inLine => absurd inLine List.not_mem_nil⟩

/-- In every reachable state the semaphore implements a line. -/
theorem line_of_reachable {n : BitVec 32} (nonneg : 0 ≤ n.toInt) {s : System}
    (reachable : (machine n).ReachableUnder (TotalsWithinInt n) s) :
    ∃ line record, Implements s line record := by
  refine reachable.invariant (motive := fun s => ∃ line record, Implements s line record) ?_ ?_
  · exact ⟨[], 0, implements_initial n⟩
  · rintro s a s' reached ⟨line, record, lined, covered⟩ allowed stepEq
    obtain ⟨line', record', e, lined', _, moved⟩ := lined.transition
      (conserved_of_reachable nonneg reached) covered allowed (transition_of_step stepEq)
    exact ⟨line', record', lined', covered.step moved⟩

end Conc11.Semaphore
