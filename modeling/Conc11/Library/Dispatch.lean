/-
Module: Conc11.Library.Dispatch
Purpose: What a first-in first-out dispatcher does to its jobs, and what follows from it: at most one
  fetch, start and end for each job, in queue order as far as one thread at a time works on them, and with
  bounded overtaking as far as a bounded number of threads does.
Trusted boundary: none
Main exports: Ledger, Ledger.Step, Ledger.Accounted, Ledger.Accounted.step, Ledger.InOrder,
  Ledger.Accounted.once, Ledger.Overtaken, Ledger.Overtaken.step
-/
import Mathlib.Algebra.Order.Group.Multiset
import Mathlib.Data.List.Nodup
import Mathlib.Tactic.Common

namespace Conc11.Library

variable {J W O : Type*}

/-- The jobs of a dispatcher.  `queue` is what is waiting; `pending` has been
fetched and not been started, `running` has been started and not ended.  The
other fields are histories: `W` names who fetched a job and `O` is how it
ended. -/
structure Ledger (J W O : Type*) where
  queue : List J
  inserted : List J
  fetched : List (W × J)
  pending : Multiset J
  started : List J
  running : Multiset J
  finished : List (J × O)

namespace Ledger

/-- The moves of a dispatcher.  A job is new when it is inserted. -/
inductive Step (l : Ledger J W O) : Ledger J W O → Prop where
  | quiet : Step l l
  | insert (job : J) (fresh : job ∉ l.inserted) :
      Step l { l with queue := l.queue ++ [job], inserted := l.inserted ++ [job] }
  | fetch (w : W) (job : J) (rest : List J) (front : l.queue = job :: rest) :
      Step l
        { l with
          queue := rest
          fetched := l.fetched ++ [(w, job)]
          pending := job ::ₘ l.pending }
  | start (job : J) (others : Multiset J) (isPending : l.pending = job ::ₘ others) :
      Step l
        { l with
          pending := others
          started := l.started ++ [job]
          running := job ::ₘ l.running }
  | finish (job : J) (outcome : O) (others : Multiset J)
      (isRunning : l.running = job ::ₘ others) :
      Step l { l with running := others, finished := l.finished ++ [(job, outcome)] }

/-- The jobs in the order in which they were fetched. -/
def fetchedJobs (l : Ledger J W O) : List J := l.fetched.map Prod.snd

/-- The jobs in the order in which they ended. -/
def finishedJobs (l : Ledger J W O) : List J := l.finished.map Prod.fst

/-- Every inserted job is at exactly one place. -/
structure Accounted (l : Ledger J W O) : Prop where
  distinct : l.inserted.Nodup
  inserted : l.inserted = l.fetchedJobs ++ l.queue
  fetched : (l.fetchedJobs : Multiset J) = l.started + l.pending
  started : (l.started : Multiset J) = l.finishedJobs + l.running

private theorem coe_concat (jobs : List J) (job : J) :
    ((jobs ++ [job] : List J) : Multiset J) = job ::ₘ jobs :=
  Multiset.coe_eq_coe.mpr (List.perm_append_singleton job jobs)

namespace Accounted

variable {l l' : Ledger J W O}

theorem step (accounted : l.Accounted) (moved : l.Step l') : l'.Accounted := by
  obtain ⟨distinct, inserted, fetched, started⟩ := accounted
  cases moved with
  | quiet => exact ⟨distinct, inserted, fetched, started⟩
  | insert job fresh =>
      refine ⟨by simpa using distinct.concat fresh, ?_, fetched, started⟩
      change l.inserted ++ [job] = l.fetchedJobs ++ (l.queue ++ [job])
      rw [inserted, List.append_assoc]
  | fetch w job rest front =>
      have jobs : (l.fetched ++ [(w, job)]).map Prod.snd = l.fetchedJobs ++ [job] :=
        List.map_append
      refine ⟨distinct, ?_, ?_, started⟩
      · change l.inserted = (l.fetched ++ [(w, job)]).map Prod.snd ++ rest
        rw [jobs, inserted, front, List.append_assoc]
        rfl
      · change (((l.fetched ++ [(w, job)]).map Prod.snd : List J) : Multiset J) =
          l.started + job ::ₘ l.pending
        rw [jobs, coe_concat, fetched, Multiset.add_cons]
  | start job others isPending =>
      refine ⟨distinct, inserted, ?_, ?_⟩
      · change (l.fetchedJobs : Multiset J) = ((l.started ++ [job] : List J) : Multiset J) + others
        rw [fetched, isPending, coe_concat, Multiset.cons_add, Multiset.add_cons]
      · change ((l.started ++ [job] : List J) : Multiset J) =
          l.finishedJobs + job ::ₘ l.running
        rw [coe_concat, started, Multiset.add_cons]
  | finish job outcome others isRunning =>
      have jobs : (l.finished ++ [(job, outcome)]).map Prod.fst = l.finishedJobs ++ [job] :=
        List.map_append
      refine ⟨distinct, inserted, fetched, ?_⟩
      change (l.started : Multiset J) =
        (((l.finished ++ [(job, outcome)]).map Prod.fst : List J) : Multiset J) + others
      rw [jobs, started, isRunning, coe_concat, Multiset.cons_add, Multiset.add_cons]

/-- The jobs are fetched in the order in which they were inserted. -/
theorem fetched_prefix (accounted : l.Accounted) : l.fetchedJobs <+: l.inserted :=
  ⟨l.queue, accounted.inserted.symm⟩

/-- No job is fetched twice. -/
theorem fetched_nodup (accounted : l.Accounted) : l.fetchedJobs.Nodup :=
  accounted.distinct.sublist accounted.fetched_prefix.sublist

theorem started_le (accounted : l.Accounted) :
    (l.started : Multiset J) ≤ (l.fetchedJobs : Multiset J) := by
  rw [accounted.fetched]
  exact Multiset.le_add_right _ _

/-- No job is started twice. -/
theorem started_nodup (accounted : l.Accounted) : l.started.Nodup :=
  Multiset.coe_nodup.mp
    (Multiset.nodup_of_le accounted.started_le (Multiset.coe_nodup.mpr accounted.fetched_nodup))

/-- When no job is waiting or being worked on, every inserted job has been
started and has ended, once. -/
theorem once [DecidableEq J] (accounted : l.Accounted) (queue : l.queue = [])
    (pending : l.pending = 0) (running : l.running = 0) {job : J} (member : job ∈ l.inserted) :
    l.started.count job = 1 ∧ l.finishedJobs.count job = 1 := by
  obtain ⟨distinct, inserted, fetched, started⟩ := accounted
  rw [queue, List.append_nil] at inserted
  rw [pending, add_zero] at fetched
  rw [running, add_zero] at started
  have one : l.inserted.count job = 1 := List.count_eq_one_of_mem distinct member
  have starts : l.started.count job = 1 := by
    rw [← (Multiset.coe_eq_coe.mp fetched).count_eq, ← inserted]
    exact one
  refine ⟨starts, ?_⟩
  rw [← (Multiset.coe_eq_coe.mp started).count_eq]
  exact starts

end Accounted

/-- The jobs have been started in the order of their fetches and have ended in
the order of their starts. -/
structure InOrder (l : Ledger J W O) : Prop where
  starts : l.started <+: l.fetchedJobs
  ends : l.finishedJobs <+: l.started

/-- A history that falls short of another by a single job. -/
private theorem prefix_gap {short long : List J} {gap others : Multiset J} {job : J}
    (isPrefix : short <+: long) (balance : (long : Multiset J) = short + gap)
    (isGap : gap = job ::ₘ others) (single : gap.card ≤ 1) : long = short ++ [job] := by
  obtain ⟨rest, rfl⟩ := isPrefix
  have same : (rest : Multiset J) = gap := by
    rw [← Multiset.coe_add] at balance
    exact add_left_cancel balance
  rw [isGap, Multiset.card_cons] at single
  have none : others = 0 := Multiset.card_eq_zero.mp (by omega)
  rw [isGap, none] at same
  rw [List.perm_singleton.mp (Multiset.coe_eq_coe.mp same)]

/-- One thread at a time keeps the order. -/
theorem InOrder.step {l l' : Ledger J W O} (inOrder : l.InOrder) (accounted : l.Accounted)
    (onePending : l.pending.card ≤ 1) (oneRunning : l.running.card ≤ 1) (moved : l.Step l') :
    l'.InOrder := by
  obtain ⟨starts, ends⟩ := inOrder
  cases moved with
  | quiet | insert _ _ => exact ⟨starts, ends⟩
  | fetch w job rest front =>
      refine ⟨starts.trans ?_, ends⟩
      change l.fetched.map Prod.snd <+: (l.fetched ++ [(w, job)]).map Prod.snd
      rw [List.map_append]
      exact List.prefix_append _ _
  | start job others isPending =>
      refine ⟨?_, ends.trans (List.prefix_append _ _)⟩
      change l.started ++ [job] <+: l.fetchedJobs
      have all := prefix_gap starts accounted.fetched isPending onePending
      exact ⟨[], (List.append_nil _).trans all.symm⟩
  | finish job outcome others isRunning =>
      refine ⟨starts, ?_⟩
      change (l.finished ++ [(job, outcome)]).map Prod.fst <+: l.started
      have all := prefix_gap ends accounted.started isRunning oneRunning
      exact ⟨[], (List.append_nil _).trans (List.map_append.trans all.symm)⟩

/-! ## Several threads -/

section Overtaking

variable [DecidableEq J] {l l' : Ledger J W O} {k : Nat}

/-- The jobs among `jobs` that have not ended. -/
def unfinished (l : Ledger J W O) (jobs : List J) : Nat :=
  jobs.countP fun job => job ∉ l.finishedJobs

/-- Whenever a job has been fetched, fewer than `k` of those before it go on. -/
def Overtaken (l : Ledger J W O) (k : Nat) : Prop :=
  ∀ early job, early ++ [job] <+: l.fetchedJobs → l.unfinished early < k

/-- Only the jobs that are worked on have been fetched and not ended. -/
theorem Accounted.unfinished_le (accounted : l.Accounted) :
    l.unfinished l.fetchedJobs ≤ l.pending.card + l.running.card := by
  have none : (l.finishedJobs : Multiset J).countP (fun job => job ∉ l.finishedJobs) = 0 := by
    rw [Multiset.coe_countP, List.countP_eq_zero]
    intro job member
    simp [member]
  calc l.unfinished l.fetchedJobs
      = (l.fetchedJobs : Multiset J).countP (fun job => job ∉ l.finishedJobs) :=
        (Multiset.coe_countP _ _).symm
    _ = l.running.countP (fun job => job ∉ l.finishedJobs) +
          l.pending.countP (fun job => job ∉ l.finishedJobs) := by
        rw [accounted.fetched, Multiset.countP_add, accounted.started, Multiset.countP_add, none,
          Nat.zero_add]
    _ ≤ l.running.card + l.pending.card :=
        Nat.add_le_add (Multiset.countP_le_card _ _) (Multiset.countP_le_card _ _)
    _ = l.pending.card + l.running.card := Nat.add_comm _ _

omit [DecidableEq J] in
/-- A job that is fetched has not ended. -/
theorem Accounted.fetching (accounted : l.Accounted) {job : J} {rest : List J}
    (front : l.queue = job :: rest) : job ∉ l.finishedJobs := by
  intro ended
  have started : job ∈ l.started := by
    rw [← Multiset.mem_coe, accounted.started]
    exact Multiset.mem_add.mpr (.inl ended)
  have fetched : job ∈ l.fetchedJobs := Multiset.mem_coe.mp
    (Multiset.mem_of_le accounted.started_le (Multiset.mem_coe.mpr started))
  have distinct := accounted.distinct
  rw [accounted.inserted, front] at distinct
  exact (List.nodup_append.mp distinct).2.2 job fetched job List.mem_cons_self rfl

/-- At most `k` threads at a time: a job is fetched when at most `k - 1` others are
worked on, and all those before it have been fetched by then. -/
theorem Overtaken.step (overtaken : l.Overtaken k) (accounted : l.Accounted)
    (busy : l'.pending.card + l'.running.card ≤ k) (moved : l.Step l') : l'.Overtaken k := by
  have after := accounted.step moved
  cases moved with
  | quiet | insert _ _ | start _ _ _ => exact overtaken
  | fetch w job rest front =>
      intro early other before
      change early ++ [other] <+: (l.fetched ++ [(w, job)]).map Prod.snd at before
      rw [List.map_append] at before
      rcases List.prefix_concat_iff.mp before with last | older
      · obtain ⟨rfl, _⟩ := List.append_inj_left' last rfl
        have goesOn : l.unfinished [job] = 1 := by
          simp [unfinished, accounted.fetching front]
        have all := Nat.le_trans after.unfinished_le busy
        change l.unfinished ((l.fetched ++ [(w, job)]).map Prod.snd) ≤ k at all
        rw [List.map_append, unfinished, List.countP_append] at all
        change _ + l.unfinished [job] ≤ k at all
        rw [goesOn] at all
        exact all
      · exact overtaken early other older
  | finish job outcome others isRunning =>
      intro early other before
      refine Nat.lt_of_le_of_lt (List.countP_mono_left fun u _ goesOn => ?_)
        (overtaken early other before)
      rw [decide_eq_true_iff] at goesOn ⊢
      intro ended
      apply goesOn
      change u ∈ (l.finished ++ [(job, outcome)]).map Prod.fst
      rw [List.map_append]
      exact List.mem_append_left _ ended

end Overtaking

end Ledger

end Conc11.Library
