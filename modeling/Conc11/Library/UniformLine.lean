/-
Module: Conc11.Library.UniformLine
Purpose: A waiting line whose callers all ask for the same number of permits.  The smallest recorded request
  is then everybody's, so the signal is never lost; and as long as nobody barges in, whoever is signalled
  is served and the line is served in its own order.
Trusted boundary: none
Main exports: Line.Event.AsksFor, Line.Uniform, Line.Uniform.keepsSignal, Line.Funded, Line.Funded.step,
  Line.InTurn, Line.InTurn.step, Line.MovedUp, Line.MovedUp.order, Line.MovedUp.halted
-/
import Conc11.Library.WaitingLine

namespace Conc11.Library

variable {C : Type*}

namespace Line

/-- Whoever gets in line, or fails to, asks for `request` permits. -/
def Event.AsksFor (request : Nat) : Event C → Prop
  | .join _ asked | .fail _ asked => asked = request
  | _ => True

/-- Nobody barges in. -/
def Event.Queues : Event C → Prop
  | .barge _ _ => False
  | _ => True

/-- All callers in line, and all recorded requests, ask for the same. -/
structure Uniform (request : Nat) (l : Line C) : Prop where
  waiters : ∀ w ∈ l.waiters, w.2 = request
  record : ∀ recorded ∈ l.record, recorded = request

variable {l l' : Line C} {e : Event C} {request : Nat}

namespace Uniform

theorem step (uniform : l.Uniform request) (asks : e.AsksFor request) (moved : l.Step e l') :
    l'.Uniform request := by
  obtain ⟨waiters, record⟩ := uniform
  cases moved with
  | pass c asked fresh empty enough => exact ⟨waiters, record⟩
  | barge c asked fresh enough => exact ⟨waiters, record⟩
  | decline c fresh => exact ⟨waiters, record⟩
  | join c asked fresh waits =>
      have same : asked = request := asks
      subst same
      refine ⟨fun w inLine => ?_, fun recorded member => ?_⟩
      · rcases List.mem_append.mp inLine with old | new
        · exact waiters w old
        · rw [List.mem_singleton.mp new]
      · rcases Multiset.mem_cons.mp member with new | old
        · exact new
        · exact record recorded old
  | fail c asked fresh =>
      have same : asked = request := asks
      subst same
      refine ⟨waiters, fun recorded member => ?_⟩
      rcases Multiset.mem_cons.mp member with new | old
      · exact new
      · exact record recorded old
  | release count woken signals => exact ⟨waiters, record⟩
  | serve c asked rest woken front signalled enough signals =>
      refine ⟨fun w inLine => waiters w ?_, fun recorded member => ?_⟩
      · rw [front]
        exact List.mem_cons_of_mem _ inLine
      · exact record recorded (Multiset.mem_of_mem_erase member)
  | requeue c asked rest front signalled short =>
      refine ⟨fun w inLine => waiters w ?_, record⟩
      rw [front]
      rcases List.mem_append.mp inLine with behind | first
      · exact List.mem_cons_of_mem _ behind
      · rw [List.mem_singleton.mp first]
        exact List.mem_cons_self
  | leave c asked before after place asleep =>
      refine ⟨fun w inLine => waiters w ?_, record⟩
      rw [place]
      exact ((List.sublist_cons_self _ _).append_left before).subset inLine

/-- With somebody in line, a signal is due when the common request can be met. -/
theorem due_iff {record : Multiset Nat} (same : ∀ recorded ∈ record, recorded = request)
    (some : record ≠ 0) (permits : Nat) : Due record permits ↔ request ≤ permits := by
  constructor
  · rintro (none | ⟨recorded, member, fits⟩)
    · exact absurd none some
    · rwa [same recorded member] at fits
  · intro fits
    obtain ⟨recorded, member⟩ := Multiset.exists_mem_of_ne_zero some
    exact .inr ⟨recorded, member, by rwa [same recorded member]⟩

/-- Whoever gives up the first place leaves it to somebody with the same
request, and could have been served otherwise. -/
theorem keepsSignal (uniform : l.Uniform request) (covered : l.Covered)
    (signalled : l.HeadSignalled) (moved : l.Step e l') : l.KeepsSignal e := by
  cases moved with
  | requeue c asked rest front awake short =>
      intro w v more line
      have first : asked = request :=
        uniform.waiters (c, asked) (by rw [front]; exact List.mem_cons_self)
      have second : v.2 = request := uniform.waiters v (by rw [line]; simp)
      rwa [second, ← first]
  | leave c asked before after place asleep =>
      intro asked' v rest line
      have first : asked' = request := uniform.waiters (c, asked') (by rw [line]; simp)
      have second : v.2 = request := uniform.waiters v (by rw [line]; simp)
      apply Nat.lt_of_not_le
      intro fits
      have awake : l.woken = true := signalled _ _ line (by rwa [first, ← second])
      cases before with
      | nil =>
          rw [asleep rfl] at awake
          cases awake
      | cons other others =>
          -- the caller that leaves would stand in two places
          have distinct := covered.distinct
          rw [place] at distinct line
          obtain ⟨rfl, _⟩ := List.cons.inj line
          simp at distinct
  | _ => trivial

/-- The first in line stays signalled whenever the permits suffice for it. -/
theorem headSignalled (uniform : l.Uniform request) (covered : l.Covered)
    (signalled : l.HeadSignalled) (moved : l.Step e l') : l'.HeadSignalled :=
  (Line.headSignalled_iff covered signalled moved).mpr
    (uniform.keepsSignal covered signalled moved)

end Uniform

/-! ## Without barging -/

/-- Whoever has been signalled can be served. -/
def Funded (request : Nat) (l : Line C) : Prop :=
  l.woken = true → request ≤ l.permits

theorem Funded.step (funded : l.Funded request) (uniform : l.Uniform request)
    (covered : l.Covered) (asks : e.AsksFor request) (queues : e.Queues) (moved : l.Step e l') :
    l'.Funded request := by
  have covered' := covered.step moved
  have uniform' := uniform.step asks moved
  /- A signal is sent only when it is due, and the record is not empty while
  somebody is in line. -/
  have due : ∀ {permits : Nat}, l'.waiters ≠ [] → Due l'.record permits → request ≤ permits := by
    intro permits someone isDue
    obtain ⟨w, rest, line⟩ := List.exists_cons_of_ne_nil someone
    have recorded : w.2 ∈ l'.record := covered'.recorded (by rw [line]; exact List.mem_cons_self)
    have notEmpty : l'.record ≠ 0 := fun none => by rw [none] at recorded; simp at recorded
    exact (Uniform.due_iff uniform'.record notEmpty permits).mp isDue
  cases moved with
  | pass c asked fresh empty enough =>
      intro awake
      have quiet : l.woken = false := covered.idle empty
      have awake : l.woken = true := awake
      rw [quiet] at awake
      cases awake
  | barge c asked fresh enough => exact queues.elim
  | decline c fresh => exact funded
  | join c asked fresh waits => exact funded
  | fail c asked fresh => exact funded
  | release count woken signals =>
      intro awake
      rcases signals.mp awake with already | ⟨someone, isDue⟩
      · exact (funded already).trans (Nat.le_add_right _ _)
      · exact due someone isDue
  | serve c asked rest woken front signalled enough signals =>
      intro awake
      obtain ⟨someone, isDue⟩ := signals.mp awake
      exact due someone isDue
  | requeue c asked rest front signalled short =>
      intro awake
      cases awake
  | leave c asked before after place asleep => exact funded

/-- A signalled caller that can be served does not go to the end of the line. -/
theorem Funded.not_requeue (funded : l.Funded request) (uniform : l.Uniform request) :
    ¬ l.Step .requeue l' := by
  intro moved
  cases moved with
  | requeue c asked rest front signalled short =>
      have same : asked = request :=
        uniform.waiters (c, asked) (by rw [front]; exact List.mem_cons_self)
      rw [same] at short
      exact Nat.not_lt.mpr (funded signalled) short

section InTurn

variable [DecidableEq C]

/-- The callers that had to wait are served in the order in which they got in
line, apart from those that gave up: served so far and still in line are
together the whole line as it was. -/
structure InTurn (l : Line C) : Prop where
  queued : l.queued.Nodup
  known : ∀ c, c ∈ l.queued ∨ c ∈ l.granted ∨ c ∈ l.left → c ∈ l.arrived
  served : (l.granted.filter fun c => c ∈ l.queued) ++ l.waiters.map Prod.fst =
    l.queued.filter fun c => c ∉ l.left

namespace InTurn

/-- Whoever is in line has got in line. -/
theorem inLine (inTurn : l.InTurn) {c : C} (member : c ∈ l.waiters.map Prod.fst) :
    c ∈ l.queued := by
  have all := List.mem_append_right (l.granted.filter fun c => c ∈ l.queued) member
  rw [inTurn.served] at all
  exact (List.mem_filter.mp all).1

/-- A caller that does not wait is not part of the line, however it fares. -/
theorem come (inTurn : l.InTurn) {c : C} (fresh : c ∉ l.arrived) (permits : Nat)
    (record : Multiset Nat) {more : List C} (itself : more = [] ∨ more = [c]) :
    InTurn { l with
      permits := permits, record := record, arrived := l.arrived ++ [c],
      granted := l.granted ++ more } := by
  have outside : c ∉ l.queued := fun waits => fresh (inTurn.known c (.inl waits))
  have notIn : more.filter (fun c => c ∈ l.queued) = [] := by
    rcases itself with rfl | rfl
    · rfl
    · simp [outside]
  refine ⟨inTurn.queued, fun d isKnown => ?_, ?_⟩
  · rcases isKnown with waits | served | gone
    · exact List.mem_append_left _ (inTurn.known d (.inl waits))
    · rcases List.mem_append.mp served with old | new
      · exact List.mem_append_left _ (inTurn.known d (.inr (.inl old)))
      · rcases itself with rfl | rfl
        · cases new
        · exact List.mem_append_right _ new
    · exact List.mem_append_left _ (inTurn.known d (.inr (.inr gone)))
  · change ((l.granted ++ more).filter fun c => c ∈ l.queued) ++ l.waiters.map Prod.fst = _
    rw [List.filter_append, notIn, List.append_nil]
    exact inTurn.served

/-- A new caller is the last one. -/
theorem join (inTurn : l.InTurn) {c : C} (fresh : c ∉ l.arrived) (asked : Nat)
    (record : Multiset Nat) :
    InTurn { l with
      waiters := l.waiters ++ [(c, asked)], record := record, arrived := l.arrived ++ [c],
      queued := l.queued ++ [c] } := by
  have outside : c ∉ l.queued := fun waits => fresh (inTurn.known c (.inl waits))
  have notGone : c ∉ l.left := fun gone => fresh (inTurn.known c (.inr (.inr gone)))
  refine ⟨?_, fun d isKnown => ?_, ?_⟩
  · simpa using inTurn.queued.concat outside
  · rcases isKnown with waits | served | gone
    · rcases List.mem_append.mp waits with old | new
      · exact List.mem_append_left _ (inTurn.known d (.inl old))
      · exact List.mem_append_right _ new
    · exact List.mem_append_left _ (inTurn.known d (.inr (.inl served)))
    · exact List.mem_append_left _ (inTurn.known d (.inr (.inr gone)))
  · have others : (l.granted.filter fun d => d ∈ l.queued ++ [c]) =
        l.granted.filter fun d => d ∈ l.queued := by
      apply List.filter_congr
      intro d served
      have notNew : d ≠ c := fun same => fresh (inTurn.known c (.inr (.inl (same ▸ served))))
      simp [notNew]
    change (l.granted.filter fun d => d ∈ l.queued ++ [c]) ++
      (l.waiters ++ [(c, asked)]).map Prod.fst = (l.queued ++ [c]).filter fun d => d ∉ l.left
    have last : [c].filter (fun d => d ∉ l.left) = [c] := by simp [notGone]
    rw [others, List.map_append, List.filter_append, last, ← List.append_assoc, inTurn.served]
    rfl

theorem serve (inTurn : l.InTurn) {c : C} {asked : Nat} {rest : List (C × Nat)}
    (front : l.waiters = (c, asked) :: rest) (permits : Nat) (woken : Bool)
    (record : Multiset Nat) :
    InTurn { l with
      permits := permits, waiters := rest, woken := woken, record := record,
      granted := l.granted ++ [c] } := by
  have waits : c ∈ l.queued := inTurn.inLine (by rw [front]; exact List.mem_cons_self)
  refine ⟨inTurn.queued, fun d isKnown => ?_, ?_⟩
  · rcases isKnown with waits' | served | gone
    · exact inTurn.known d (.inl waits')
    · rcases List.mem_append.mp served with old | new
      · exact inTurn.known d (.inr (.inl old))
      · rw [List.mem_singleton.mp new]
        exact inTurn.known c (.inl waits)
    · exact inTurn.known d (.inr (.inr gone))
  · change ((l.granted ++ [c]).filter fun d => d ∈ l.queued) ++ rest.map Prod.fst = _
    have itself : [c].filter (fun d => d ∈ l.queued) = [c] := by simp [waits]
    have served := inTurn.served
    rw [front, List.map_cons, List.append_cons] at served
    rw [List.filter_append, itself]
    exact served

/-- Whoever gives up disappears from both sides. -/
theorem leave (inTurn : l.InTurn) {c : C} {asked : Nat} {before after : List (C × Nat)}
    (place : l.waiters = before ++ (c, asked) :: after) :
    InTurn { l with waiters := before ++ after, left := l.left ++ [c] } := by
  have waits : c ∈ l.queued := inTurn.inLine (by rw [place]; simp)
  refine ⟨inTurn.queued, fun d isKnown => ?_, ?_⟩
  · rcases isKnown with waits' | served | gone
    · exact inTurn.known d (.inl waits')
    · exact inTurn.known d (.inr (.inl served))
    · rcases List.mem_append.mp gone with old | new
      · exact inTurn.known d (.inr (.inr old))
      · rw [List.mem_singleton.mp new]
        exact inTurn.known c (.inl waits)
  · have all := inTurn.served
    have nodup : ((l.granted.filter fun d => d ∈ l.queued) ++ l.waiters.map Prod.fst).Nodup := by
      rw [all]
      exact inTurn.queued.filter _
    rw [place, List.map_append, List.map_cons, ← List.append_assoc] at all nodup
    have alone := (List.nodup_cons.mp (List.perm_middle.nodup_iff.mp nodup)).1
    have gone : (l.queued.filter fun d => d ∉ l.left ++ [c]) =
        (l.queued.filter fun d => d ∉ l.left).filter fun d => d ≠ c := by
      rw [List.filter_filter]
      apply List.filter_congr
      intro d _
      simp [and_comm]
    have others : ∀ {xs : List C}, c ∉ xs → xs.filter (fun d => d ≠ c) = xs := by
      intro xs absent
      apply List.filter_eq_self.mpr
      intro d member
      exact decide_eq_true fun same => absent (same ▸ member)
    have early : c ∉ (l.granted.filter fun d => d ∈ l.queued) ++ before.map Prod.fst :=
      fun member => alone (List.mem_append_left _ member)
    have late : c ∉ after.map Prod.fst := fun member => alone (List.mem_append_right _ member)
    change (l.granted.filter fun d => d ∈ l.queued) ++ (before ++ after).map Prod.fst =
      l.queued.filter fun d => d ∉ l.left ++ [c]
    rw [gone, ← all, List.filter_append, others early, List.filter_cons_of_neg (by simp),
      others late, List.map_append, List.append_assoc]

theorem step (inTurn : l.InTurn) (queues : e.Queues) (served : e ≠ .requeue)
    (moved : l.Step e l') : l'.InTurn := by
  cases moved with
  | pass c asked fresh empty enough =>
      exact inTurn.come fresh (l.permits - asked) l.record (.inr rfl)
  | barge c asked fresh enough => exact queues.elim
  | decline c fresh =>
      have stays := inTurn.come fresh l.permits l.record (.inl rfl)
      rwa [List.append_nil] at stays
  | join c asked fresh waits => exact inTurn.join fresh asked (asked ::ₘ l.record)
  | fail c asked fresh =>
      have stays := inTurn.come fresh l.permits (asked ::ₘ l.record) (.inl rfl)
      rwa [List.append_nil] at stays
  | release count woken signals => exact ⟨inTurn.queued, inTurn.known, inTurn.served⟩
  | serve c asked rest woken front signalled enough signals =>
      exact inTurn.serve front (l.permits - asked) woken (l.record.erase asked)
  | requeue c asked rest front signalled short => exact absurd rfl served
  | leave c asked before after place asleep => exact inTurn.leave place

end InTurn

end InTurn

/-! ## Moving up -/

/-- Between `l` and `l'` the callers `served` have got their permits, others may
have given up, and nobody has come. -/
structure MovedUp (request : Nat) (l l' : Line C) (served : List C) : Prop where
  queued : l'.queued = l.queued
  granted : l'.granted = l.granted ++ served
  inLine : ∀ c ∈ served, c ∈ l.queued
  left : ∀ c ∈ l.left, c ∈ l'.left
  permits : l'.permits + request * served.length = l.permits

namespace MovedUp

variable {l'' : Line C} {served more : List C}

theorem refl (request : Nat) (l : Line C) : l.MovedUp request l [] :=
  ⟨rfl, (List.append_nil _).symm, nofun, fun _ => id, rfl⟩

theorem trans (first : l.MovedUp request l' served) (second : l'.MovedUp request l'' more) :
    l.MovedUp request l'' (served ++ more) := by
  refine ⟨second.queued.trans first.queued, ?_, fun c member => ?_,
    fun c gone => second.left c (first.left c gone), ?_⟩
  · rw [second.granted, first.granted, List.append_assoc]
  · rcases List.mem_append.mp member with old | new
    · exact first.inLine c old
    · exact first.queued ▸ second.inLine c new
  · have before := first.permits
    have after := second.permits
    rw [List.length_append, Nat.mul_add]
    omega

variable [DecidableEq C]

/-- Serving the first in line takes one request out of the permits. -/
theorem of_serve (uniform : l.Uniform request) (inTurn : l.InTurn) (moved : l.Step .serve l') :
    ∃ c, l.MovedUp request l' [c] := by
  cases moved with
  | serve c asked rest woken front signalled enough signals =>
      have first : (c, asked) ∈ l.waiters := by rw [front]; exact List.mem_cons_self
      have same : asked = request := uniform.waiters (c, asked) first
      subst same
      refine ⟨c, rfl, rfl, fun d member => ?_, fun _ => id, ?_⟩
      · rw [List.mem_singleton.mp member]
        exact inTurn.inLine (List.mem_map_of_mem first)
      · simp only [List.length_singleton, Nat.mul_one]
        omega

omit [DecidableEq C] in
theorem of_leave {c : C} (moved : l.Step (.leave c) l') : l.MovedUp request l' [] := by
  cases moved with
  | leave _ asked before after place asleep =>
      exact ⟨rfl, (List.append_nil _).symm, nofun, fun _ => List.mem_append_left _, rfl⟩

/-- Who was in line before and has not given up has been served or is in line
still, in the same order. -/
theorem order (moved : l.MovedUp request l' served) (before : l.InTurn) (after : l'.InTurn) :
    served ++ l'.waiters.map Prod.fst =
      (l.waiters.map Prod.fst).filter fun c => c ∉ l'.left := by
  have split : (l'.granted.filter fun c => c ∈ l'.queued) =
      (l.granted.filter fun c => c ∈ l.queued) ++ served := by
    rw [moved.granted, moved.queued, List.filter_append]
    congr 1
    exact List.filter_eq_self.mpr fun c member => decide_eq_true (moved.inLine c member)
  have now := after.served
  have old := congrArg (List.filter fun c => c ∉ l'.left) before.served
  have gone : ((l.queued.filter fun c => c ∉ l.left).filter fun c => c ∉ l'.left) =
      l'.queued.filter fun c => c ∉ l'.left := by
    rw [List.filter_filter, moved.queued]
    apply List.filter_congr
    intro c _
    have keeps := moved.left c
    rw [← Bool.decide_and, decide_eq_decide]
    exact ⟨And.left, fun stays => ⟨stays, fun member => stays (keeps member)⟩⟩
  -- who was served before has not given up since
  have kept : ((l.granted.filter fun c => c ∈ l.queued).filter fun c => c ∉ l'.left) =
      l.granted.filter fun c => c ∈ l.queued := by
    refine List.filter_eq_self.mpr fun c member => ?_
    have all : c ∈ l'.queued.filter fun c => c ∉ l'.left := by
      rw [← now, split]
      exact List.mem_append_left _ (List.mem_append_left _ member)
    exact (List.mem_filter.mp all).2
  rw [gone, ← now, split, List.filter_append, kept, List.append_assoc] at old
  exact (List.append_cancel_left old).symm

/-- Where the line has come to a halt, as many have been served as there were
permits for, from the front. -/
theorem halted (moved : l.MovedUp request l' served) (before : l.InTurn) (after : l'.InTurn)
    (positive : 0 < request) (halt : l'.waiters = [] ∨ l'.permits < request) :
    served = ((l.waiters.map Prod.fst).filter fun c => c ∉ l'.left).take (l.permits / request) ∧
      l'.waiters.map Prod.fst =
        ((l.waiters.map Prod.fst).filter fun c => c ∉ l'.left).drop (l.permits / request) := by
  have permits := moved.permits
  rw [← moved.order before after]
  rcases halt with empty | short
  · have fits : served.length ≤ l.permits / request := by
      rw [Nat.le_div_iff_mul_le positive, Nat.mul_comm]
      omega
    rw [empty, List.map_nil, List.append_nil, List.take_of_length_le fits,
      List.drop_eq_nil_of_le fits]
    exact ⟨rfl, rfl⟩
  · have asMany : l.permits / request = served.length := by
      apply Nat.div_eq_of_lt_le
      · rw [Nat.mul_comm]
        omega
      · rw [Nat.succ_mul, Nat.mul_comm]
        omega
    rw [asMany, List.take_left, List.drop_left]
    exact ⟨rfl, rfl⟩

end MovedUp

end Line

end Conc11.Library
