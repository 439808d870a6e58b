import Mathlib.Algebra.Order.BigOperators.Group.List
import Mathlib.Algebra.Order.Ring.Nat
import Roster.Proofs.Polling

/-!
# Proofs.Ending — what is left once discovery is over

* `Engine.cycles`: the cycles in flight, whatever their stage. `Passes`: what a job does to them and
  to their outcomes.
* `Held`: an instance that its owner let go is over with the last call in flight.
* `Ending`: after the end no outcome tells of a change, and who comes late is turned away.
* `Hushed`, `burden`: a further stop wakes nobody, and each job leaves less to do than before.
* `nothing_after_the_end`: after the end nobody is told anything, and every call is answered.
-/

namespace Roster

open Members Relation

/-- What a cycle has to do yet, once discovery is over. -/
def Stage.weight : Stage → Nat
  | .queued | .pausing _ _ _ => 1
  | .attempting _ _ _ => 2

theorem Stage.weight_pos (stage : Stage) : 1 ≤ stage.weight := by
  cases stage <;> simp [weight]

namespace Engine

variable {config : Config} {e e' e₀ : Engine} {run : Run}

/-! ## Cycles in flight -/

/-- The cycles in flight by their numbers, each with whether it is the poll loop's. -/
def cycles (e : Engine) : List (Nat × Bool) := e.runs.map fun r => (r.id, r.ofLoop)

theorem mem_cycles {id : Nat} {ofLoop : Bool} :
    (id, ofLoop) ∈ e.cycles ↔ ∃ run ∈ e.runs, run.id = id ∧ run.ofLoop = ofLoop := by
  simp [cycles, Prod.ext_iff]

@[simp] theorem cycles_setStage (e : Engine) (id : Nat) (stage : Stage) :
    (e.setStage id stage).cycles = e.cycles := by
  unfold cycles setStage
  rw [List.map_map]
  refine List.map_congr_left fun r _ => ?_
  dsimp only [Function.comp]
  split <;> rfl

@[simp] theorem cycles_dropRun (e : Engine) (id : Nat) :
    (e.dropRun id).cycles = e.cycles.filter (·.1 != id) := by
  unfold cycles dropRun
  rw [List.filter_map]
  rfl

/-- Where the poll loop is after a cycle concerns nobody else. -/
theorem afterCycle_eq (e : Engine) (result : CycleResult) : ∃ loop first later,
    e.afterCycle result = { e with
      loop, ready := first ++ e.ready, alarms := e.alarms ++ later } := by
  have tick : ∀ due, ∃ loop first later, e.awaitTick due = { e with
      loop, ready := first ++ e.ready, alarms := e.alarms ++ later } := fun due => by
    obtain ⟨first, later, heq, -⟩ := goOnAt_eq { e with loop := .waiting due } (Clock.roundUp due) .loop
    exact ⟨_, first, later, heq⟩
  unfold afterCycle
  split
  · exact tick _
  · split
    · exact ⟨.ended, [], [], by simp⟩
    · exact tick _
  · exact ⟨e.loop, [], [], by simp⟩

/-- An instance that its owner let go has a call in flight, or is over. -/
def Held (e : Engine) : Prop :=
  e.released = true → e.running = true → ∃ id, (id, false) ∈ e.cycles

theorem held_settleRelease (e : Engine) : Held e.settleRelease := by
  unfold settleRelease
  split
  · obtain ⟨aborted, woken, heq⟩ := silence_eq e
    rw [heq]
    exact fun _ hr => by cases hr
  · next hc =>
    rintro released -
    rw [released, Bool.true_and, Bool.not_eq_true, List.all_eq_false] at hc
    obtain ⟨run, hrun, ho⟩ := hc
    exact ⟨run.id, mem_cycles.2 ⟨run, hrun, rfl, Bool.eq_false_iff.2 ho⟩⟩

/-- A cycle that comes to its end leaves its outcome. -/
theorem finish_eq (e : Engine) (run : Run) (result : CycleResult) :
    ∃ turn queue loop running channel aborted members before after later,
      e.finish run result = { e.dropRun run.id with
        turn, queue, loop, running, channel, aborted, members
        ready := before ++ e.ready ++ after
        alarms := e.alarms ++ later
        results := (run.id, result) :: e.results } ∧
      (running = true → e.running = true) ∧ (run.ofLoop = false → Held (e.finish run result)) := by
  obtain ⟨turn, queue, woken, hpass, -⟩ := passTurn_eq (e.dropRun run.id)
  unfold finish
  dsimp only
  split
  · next own =>
    obtain ⟨loop, first, later, heq⟩ := afterCycle_eq { (e.dropRun run.id).passTurn with
      results := (run.id, result) :: (e.dropRun run.id).passTurn.results } result
    rw [heq, hpass]
    exact ⟨turn, queue, loop, e.running, e.channel, e.aborted, e.members, first, woken, later,
      by simp [dropRun], id, fun other => absurd (own.symm.trans other) (by decide)⟩
  · obtain ⟨running, channel, aborted, more, members, heq, kept⟩ := settleRelease_eq
      { (e.dropRun run.id).passTurn with
        results := (run.id, result) :: (e.dropRun run.id).passTurn.results }
    have held := held_settleRelease { (e.dropRun run.id).passTurn with
      results := (run.id, result) :: (e.dropRun run.id).passTurn.results }
    rw [heq, hpass] at held ⊢
    rw [hpass] at kept
    exact ⟨turn, queue, e.loop, running, channel, aborted, members, [], woken ++ more, [],
      by simp [dropRun], kept, fun _ => held⟩

/-! ## Outcomes -/

/-- The outcome tells of no change: discovery has stopped, or the cycle left the active view as it
was. -/
def Fruitless (result : CycleResult) : Prop :=
  result = .error .cancelled ∨ result = .error .shutdown ∨
    ∃ report, result = .ok report ∧ report.isNoop = true

/-- What a job does to the cycles in flight and to their outcomes. -/
inductive Passes (e : Engine) : Job → Engine → Prop where
  /-- None comes into being, and none ends. -/
  | on {job : Job} {e' : Engine} (begun : ∀ id, job = .start id → e.running = true)
      (cycles : e'.cycles = e.cycles) (results : e'.results = e.results) : Passes e job e'
  /-- The poll loop begins one. -/
  | begins {e' : Engine} (live : e.aborted = false) (waits : e.loop ≠ .ended)
      (cycles : e'.cycles = e.cycles ++ [(e.started, true)]) (results : e'.results = e.results) :
      Passes e .loop e'
  /-- The poll loop's own is given up. -/
  | givenUp {run : Run} {e' : Engine} (inFlight : run ∈ e.runs) (own : run.ofLoop = true)
      (cycles : e'.cycles = e.cycles.filter (·.1 != run.id)) (results : e'.results = e.results) :
      Passes e (.resume run.id) e'
  /-- One is turned away before it began. -/
  | refused {id : Nat} {e' : Engine} (cycles : e'.cycles = e.cycles.filter (·.1 != id))
      (results : e'.results = (id, .error .shutdown) :: e.results) (held : Held e') :
      Passes e (.start id) e'
  /-- One comes to its end. -/
  | ends {run : Run} {e' : Engine} (inFlight : run ∈ e.runs) (turn : e.turn = some run.id)
      (result : CycleResult) (fruitless : e.members.closed = true → Fruitless result)
      (cycles : e'.cycles = e.cycles.filter (·.1 != run.id))
      (results : e'.results = (run.id, result) :: e.results) (held : run.ofLoop = false → Held e') :
      Passes e (.resume run.id) e'

/-- Jobs that can go on stay, and discovery does not begin anew. -/
structure Onward (e e' : Engine) : Prop where
  ready : ∀ job ∈ e.ready, job ∈ e'.ready
  started : e.started ≤ e'.started
  running : e'.running = true → e.running = true

theorem fruitless_of_cancelled {error : DiscoveryError} (h : error.isCancelled = true) :
    Fruitless (.error error) := by
  cases error with
  | cancelled => exact .inl rfl
  | shutdown => exact .inr (.inl rfl)
  | _ => cases h

/-- A job leads onward, and concerns one cycle at most. -/
theorem Taken.passes {job : Job} (t : Taken e job e') :
    Passes e job e' ∧ Onward e e' ∧ e'.released = e.released := by
  have on : Onward e e := ⟨fun _ hm => hm, Nat.le_refl _, id⟩
  cases t with
  | timer concerns elsewhere =>
    have begun : ∀ id, job = .start id → e.running = true := by
      rintro id rfl
      cases concerns
    cases elsewhere
    exact ⟨.on begun rfl rfl, ⟨fun _ hm => List.mem_append_left _ hm, Nat.le_refl _, id⟩, rfl⟩
  | start id =>
    unfold startRun
    split
    · next running =>
      obtain ⟨turn, queue, first, heq, -⟩ := takeTurn_eq e id
      rw [heq]
      exact ⟨.on (fun _ _ => running) rfl rfl,
        ⟨fun _ hm => List.mem_append_right _ hm, Nat.le_refl _, fun hr => hr⟩, rfl⟩
    · obtain ⟨running, channel, aborted, woken, members, heq, kept⟩ := settleRelease_eq
        { e.dropRun id with results := (id, .error .shutdown) :: e.results }
      have held := held_settleRelease
        { e.dropRun id with results := (id, .error .shutdown) :: e.results }
      rw [heq] at held ⊢
      exact ⟨.refused (cycles_dropRun e id) rfl held,
        ⟨fun _ hm => List.mem_append_left _ hm, Nat.le_refl _, kept⟩, rfl⟩
  | loop =>
    have begun : ∀ id, Job.loop = .start id → e.running = true := fun id hj => by cases hj
    unfold resumeLoop
    split
    · exact ⟨.on begun rfl rfl, ⟨fun _ hm => hm, Nat.le_refl _, id⟩, rfl⟩
    · next live =>
      have begins : ∀ due, e.loop ≠ .ended → Passes e .loop (e.serveTick due) ∧
          Onward e (e.serveTick due) ∧ (e.serveTick due).released = e.released := fun due waits => by
        obtain ⟨turn, queue, first, heq, -⟩ := takeTurn_eq { (e.newRun true).2 with
          loop := .cycling e.started (nextTick e.config.queryInterval due e.now) } e.started
        rw [show e.serveTick due = _ from heq]
        exact ⟨.begins (Bool.eq_false_iff.2 live) waits List.map_append rfl,
          ⟨fun _ hm => List.mem_append_right _ hm, Nat.le_succ _, fun hr => hr⟩, rfl⟩
      split
      · next hl =>
        split
        · exact begins _ (by rw [hl]; simp)
        · obtain ⟨first, later, heq, -⟩ := goOnAt_eq
            { e with loop := .delaying (Clock.after e.now e.config.initialDelay) }
            (Clock.after e.now e.config.initialDelay) .loop
          rw [heq]
          exact ⟨.on begun rfl rfl,
            ⟨fun _ hm => List.mem_append_right _ hm, Nat.le_refl _, fun hr => hr⟩, rfl⟩
      · next hl =>
        split
        · exact begins _ (by rw [hl]; simp)
        · exact ⟨.on begun rfl rfl, on, rfl⟩
      · next hl =>
        split
        · exact begins _ (by rw [hl]; simp)
        · exact ⟨.on begun rfl rfl, on, rfl⟩
      · exact ⟨.on begun rfl rfl, on, rfl⟩
  | stale gone => exact ⟨.on (fun _ hj => by cases hj) rfl rfl, on, rfl⟩
  | @resume run _ inFlight goes =>
    have begun : ∀ id, Job.resume run.id = .start id → e.running = true := fun id hj => by cases hj
    cases goes with
    | waits kept early => exact ⟨.on begun rfl rfl, on, rfl⟩
    | asks kept turn listening left stage =>
      obtain ⟨ends, outcome, first, later, heq, -⟩ := attempt_eq e run.id left
      rw [heq]
      exact ⟨.on begun (cycles_setStage e _ _) rfl,
        ⟨fun _ hm => List.mem_append_right _ hm, Nat.le_refl _, fun hr => hr⟩, rfl⟩
    | @pauses kept left _ _ _ stage finished failed =>
      obtain ⟨ends, first, later, heq, -⟩ := pause_eq e run left failed
      rw [heq]
      exact ⟨.on begun (cycles_setStage e _ _) rfl,
        ⟨fun _ hm => List.mem_append_right _ hm, Nat.le_refl _, fun hr => hr⟩, rfl⟩
    | @ends kept turn e₁ elsewhere result noop cause =>
      have fruitless : e.members.closed = true → Fruitless result := fun ended => by
        cases result with
        | ok report => exact .inr (.inr ⟨report, rfl, noop ended report rfl⟩)
        | error error => exact fruitless_of_cancelled (cause error rfl).1
      obtain ⟨_, _, _, running, _, _, _, before, after, _, heq, hrunning, held⟩ := finish_eq e₁ run result
      rw [heq] at held ⊢
      cases elsewhere with
      | mk members fresh later now closed jobs alarms finished =>
      refine ⟨.ends inFlight turn result fruitless (cycles_dropRun e run.id) rfl held,
        ⟨fun _ hm => ?_, Nat.le_refl _, hrunning⟩, rfl⟩
      exact List.mem_append_left _ (List.mem_append_right _ (List.mem_append_left _ hm))
    | abandoned ofLoop aborted =>
      obtain ⟨turn, queue, woken, heq, -⟩ := abandon_eq e run
      rw [heq]
      exact ⟨.givenUp inFlight ofLoop (cycles_dropRun e run.id) rfl,
        ⟨fun _ hm => List.mem_append_left _ hm, Nat.le_refl _, fun hr => hr⟩, rfl⟩

/-- Nothing but a job ends a cycle. A call brings one into being, which begins only while discovery
runs. -/
theorem act_onward (e : Engine) {deed : Deed} (other : ∀ job heeds, deed ≠ .turn job heeds) :
    Onward e (e.act deed) ∧ (e.act deed).results = e.results ∧
      (deed = .release ∨ (e.act deed).released = e.released) ∧
      ((e.act deed).cycles = e.cycles ∨ ((e.act deed).cycles = e.cycles ++ [(e.started, false)] ∧
        (e.running = true ∨ .start e.started ∈ (e.act deed).ready))) := by
  -- a deed that wakes jobs and changes the members
  have wakes : ∀ (members : Members) (channel : Channel) (running aborted : Bool) (woken : List Job),
      (running = true → e.running = true) → Onward e { e with
        members, channel, running, aborted, ready := e.ready ++ woken } :=
    fun _ _ _ _ _ kept => ⟨fun _ hm => List.mem_append_left _ hm, Nat.le_refl _, kept⟩
  cases deed with
  | turn job heeds => exact absurd rfl (other job heeds)
  | wait time =>
    obtain ⟨woken, heq, -⟩ := jump_eq e time
    rw [show e.act (.wait time) = _ from heq]
    exact ⟨⟨fun _ hm => List.mem_append_left _ hm, Nat.le_refl _, fun hr => hr⟩, rfl, .inr rfl, .inl rfl⟩
  | call =>
    rcases call_eq e with ⟨running, hcall⟩ | ⟨-, hcall⟩
    · obtain ⟨turn, queue, first, heq, -⟩ := takeTurn_eq (e.newRun false).2 e.started
      rw [show e.act .call = _ from hcall, heq]
      exact ⟨⟨fun _ hm => List.mem_append_right _ hm, Nat.le_succ _, fun hr => hr⟩, rfl, .inr rfl,
        .inr ⟨List.map_append, .inl running⟩⟩
    · rw [show e.act .call = _ from hcall]
      exact ⟨⟨fun _ hm => hm, Nat.le_refl _, fun hr => hr⟩, rfl, .inr rfl, .inl rfl⟩
  | spawn =>
    obtain ⟨woken, heq, -, mem⟩ := wake_eq (e.newRun false).2 (.start e.started)
    rw [show e.act .spawn = _ from heq]
    exact ⟨⟨fun _ hm => List.mem_append_left _ hm, Nat.le_succ _, fun hr => hr⟩, rfl, .inr rfl,
      .inr ⟨List.map_append, .inr mem⟩⟩
  | fail key => exact ⟨wakes _ _ _ _ _ id, rfl, .inr rfl, .inl rfl⟩
  | pardon key =>
    obtain ⟨members, woken, heq⟩ := pardon_eq e key
    rw [show e.act (.pardon key) = _ from heq]
    exact ⟨wakes _ _ _ _ _ id, rfl, .inr rfl, .inl rfl⟩
  | cancel =>
    obtain ⟨channel, woken, heq⟩ := cancel_eq e
    rw [show e.act .cancel = _ from heq]
    exact ⟨wakes _ _ _ _ _ id, rfl, .inr rfl, .inl rfl⟩
  | stop =>
    obtain ⟨aborted, woken, members, heq⟩ := stop_eq e
    rw [show e.act .stop = _ from heq]
    exact ⟨wakes _ _ _ _ _ fun hr => (by cases hr), rfl, .inr rfl, .inl rfl⟩
  | release =>
    obtain ⟨running, channel, aborted, woken, members, heq, kept⟩ :=
      settleRelease_eq { e with released := true }
    rw [show e.act .release = _ from heq]
    exact ⟨⟨fun _ hm => List.mem_append_left _ hm, Nat.le_refl _, kept⟩, rfl, .inl rfl, .inl rfl⟩
  | serve directory =>
    exact ⟨⟨fun _ hm => hm, Nat.le_refl _, fun hr => hr⟩, rfl, .inr rfl, .inl rfl⟩

/-! ## Runs of discovery -/

/-- A number belongs to one cycle. -/
theorem InTurn.cycle_unique (h : InTurn e) {id : Nat} {ofLoop : Bool} (hc : (id, ofLoop) ∈ e.cycles)
    (hrun : run ∈ e.runs) (same : run.id = id) : run.ofLoop = ofLoop := by
  obtain ⟨other, hother, hid, rfl⟩ := mem_cycles.1 hc
  rw [h.unique hrun hother (same.trans hid.symm)]

/-- **Nobody's cycle is lost**: it is in flight, or its outcome is there. -/
theorem InTurn.answered_or_in_flight (h : InTurn e) (ordered : Orderly config e) {deed : Deed}
    (allowed : e.Allows deed) {id : Nat} (hid : (id, false) ∈ e.cycles ∨ ∃ x, (id, x) ∈ e.results) :
    (id, false) ∈ (e.act deed).cycles ∨ ∃ x, (id, x) ∈ (e.act deed).results := by
  have left : ∀ {gone : Nat}, (id, false) ∈ e.cycles → id ≠ gone →
      (id, false) ∈ e.cycles.filter (·.1 != gone) := fun hc hne =>
    List.mem_filter.2 ⟨hc, by simpa using hne⟩
  rcases deed.turn_or_other with ⟨job, heeds, rfl⟩ | other
  · have taken : Taken _ job (e.act (.turn job heeds)) := h.taken ordered allowed
    obtain ⟨passes, -⟩ := taken.passes
    generalize e.act (.turn job heeds) = e' at passes
    cases passes with
    | on begun cycles results =>
      rw [cycles, results]
      exact hid
    | begins live waits cycles results =>
      rw [cycles, results]
      exact hid.imp_left (List.mem_append_left _)
    | @givenUp run _ inFlight own cycles results =>
      rw [cycles, results]
      refine hid.imp_left fun hc => left hc fun heq => ?_
      have other := h.cycle_unique hc inFlight heq.symm
      rw [own] at other
      cases other
    | @refused gone _ cycles results held =>
      rw [cycles, results]
      rcases hid with hc | ⟨x, hx⟩
      · by_cases heq : id = gone
        · subst heq
          exact .inr ⟨_, List.mem_cons_self⟩
        · exact .inl (left hc heq)
      · exact .inr ⟨x, List.mem_cons_of_mem _ hx⟩
    | @ends run _ inFlight turn result fruitless cycles results held =>
      rw [cycles, results]
      rcases hid with hc | ⟨x, hx⟩
      · by_cases heq : id = run.id
        · subst heq
          exact .inr ⟨_, List.mem_cons_self⟩
        · exact .inl (left hc heq)
      · exact .inr ⟨x, List.mem_cons_of_mem _ hx⟩
  · obtain ⟨-, results, -, cycles | ⟨cycles, -⟩⟩ := act_onward e other
    · rw [results, cycles]
      exact hid
    · rw [results, cycles]
      exact hid.imp_left (List.mem_append_left _)

theorem Underway.answered_or_in_flight (h : Underway e) (ordered : Orderly config e)
    {deeds : List Deed} (l : Leads e deeds e') {id : Nat} (hid : (id, false) ∈ e.cycles) :
    (id, false) ∈ e'.cycles ∨ ∃ x, (id, x) ∈ e'.results := by
  induction l with
  | start => exact .inl hid
  | next before deed allowed ih =>
    exact (h.leads ordered before).turns.answered_or_in_flight (ordered.leads before).2 allowed ih

/-- An instance that was let go stays with its last call in flight, and no longer. -/
theorem Held.act (h : Held e) (ordered : Orderly config e) (turns : InTurn e) {deed : Deed}
    (allowed : e.Allows deed) : Held (e.act deed) := by
  rcases deed.turn_or_other with ⟨job, heeds, rfl⟩ | other
  · have taken : Taken _ job (e.act (.turn job heeds)) := turns.taken ordered allowed
    obtain ⟨passes, onward, released⟩ := taken.passes
    generalize e.act (.turn job heeds) = e' at passes onward released
    -- a cycle of the poll loop is none of those that keep the instance
    have stays : ∀ {run : Run}, run ∈ e.runs → run.ofLoop = true →
        e'.cycles = e.cycles.filter (·.1 != run.id) → Held e' := by
      intro run inFlight own cycles hr hrun
      obtain ⟨id, hid⟩ := h (released.symm.trans hr) (onward.running hrun)
      refine ⟨id, cycles ▸ List.mem_filter.2 ⟨hid, ?_⟩⟩
      have hne : id ≠ run.id := fun heq => by
        have other := turns.cycle_unique hid inFlight heq.symm
        rw [own] at other
        cases other
      simpa using hne
    cases passes with
    | on begun cycles results =>
      intro hr hrun
      exact cycles ▸ h (released.symm.trans hr) (onward.running hrun)
    | begins live waits cycles results =>
      intro hr hrun
      obtain ⟨id, hid⟩ := h (released.symm.trans hr) (onward.running hrun)
      exact ⟨id, cycles ▸ List.mem_append_left _ hid⟩
    | givenUp inFlight own cycles results => exact stays inFlight own cycles
    | refused cycles results held => exact held
    | @ends run _ inFlight turn result fruitless cycles results held =>
      cases own : run.ofLoop with
      | true => exact stays inFlight own cycles
      | false => exact held own
  · obtain ⟨onward, -, rfl | released, cycles⟩ := act_onward e other
    · exact held_settleRelease _
    · intro hr hrun
      obtain ⟨id, hid⟩ := h (released.symm.trans hr) (onward.running hrun)
      refine ⟨id, ?_⟩
      rcases cycles with cycles | ⟨cycles, -⟩
      · exact cycles ▸ hid
      · exact cycles ▸ List.mem_append_left _ hid

/-! ## After the end -/

/-- What holds after a moment `e₀` at which discovery is over. -/
structure Ending (e₀ e : Engine) : Prop where
  stopped : e.running = false
  started : e₀.started ≤ e.started
  /-- A cycle that came late has not begun. -/
  late : ∀ c ∈ e.cycles, e₀.started ≤ c.1 → .start c.1 ∈ e.ready
  results : ∀ x ∈ e.results, x ∈ e₀.results ∨
    (Fruitless x.2 ∧ (e₀.started ≤ x.1 → x.2 = .error .shutdown))

namespace Ending

theorem refl (turns : InTurn e) (stopped : e.running = false) : Ending e e := by
  refine ⟨stopped, Nat.le_refl _, ?_, fun x hx => .inl hx⟩
  rintro ⟨id, ofLoop⟩ hc hlate
  obtain ⟨run, hrun, rfl, -⟩ := mem_cycles.1 hc
  exact absurd (turns.known run hrun) (Nat.not_lt.2 hlate)

/-- A job goes on. -/
theorem turn (h : Ending e₀ e) (ordered : Orderly config e) (underway : Underway e) {job : Job}
    {heeds : Bool} (allowed : job ∈ e.ready) : Ending e₀ (e.act (.turn job heeds)) := by
  have taken : Taken _ job (e.act (.turn job heeds)) := underway.turns.taken ordered allowed
  obtain ⟨passes, onward, -⟩ := taken.passes
  generalize e.act (.turn job heeds) = e' at passes onward
  have stopped : e'.running = false := Bool.eq_false_iff.2 fun hr => by
    have running : e.running = true := onward.running hr
    rw [h.stopped] at running
    cases running
  have started : e₀.started ≤ e'.started := Nat.le_trans h.started onward.started
  -- the jobs of those that came late are still there
  have stays : ∀ c ∈ e.cycles, e₀.started ≤ c.1 → job ≠ .start c.1 → .start c.1 ∈ e'.ready :=
    fun c hc hlate hne => onward.ready _ ((List.mem_erase_of_ne hne.symm).2 (h.late c hc hlate))
  have fewer : ∀ {id : Nat}, (∀ id', job = .start id' → id' = id) →
      e'.cycles = e.cycles.filter (·.1 != id) →
      ∀ c ∈ e'.cycles, e₀.started ≤ c.1 → .start c.1 ∈ e'.ready := by
    intro id own cycles c hc hlate
    rw [cycles] at hc
    obtain ⟨hc, hne⟩ := List.mem_filter.1 hc
    exact stays c hc hlate fun hj => by simp [own _ hj] at hne
  have recorded : ∀ {id : Nat} {result : CycleResult}, e'.results = (id, result) :: e.results →
      Fruitless result → (e₀.started ≤ id → result = .error .shutdown) → ∀ x ∈ e'.results,
        x ∈ e₀.results ∨ (Fruitless x.2 ∧ (e₀.started ≤ x.1 → x.2 = .error .shutdown)) := by
    intro id result results fruitless shutdown x hx
    rw [results] at hx
    rcases List.mem_cons.1 hx with rfl | hx
    · exact .inr ⟨fruitless, shutdown⟩
    · exact h.results x hx
  cases passes with
  | on begun cycles results =>
    refine ⟨stopped, started, fun c hc hlate => ?_, fun x hx => h.results x (by rwa [results] at hx)⟩
    refine stays c (cycles ▸ hc) hlate fun hj => ?_
    have running : e.running = true := begun _ hj
    rw [h.stopped] at running
    cases running
  | begins live waits cycles results =>
    rcases (underway.polling.stopped h.stopped).2 with ended | aborted
    · exact absurd ended waits
    · exact absurd (aborted.symm.trans live) (by decide)
  | givenUp inFlight own cycles results =>
    exact ⟨stopped, started, fewer (fun _ hj => by cases hj) cycles,
      fun x hx => h.results x (by rwa [results] at hx)⟩
  | refused cycles results held =>
    exact ⟨stopped, started, fewer (fun _ hj => (Job.start.inj hj).symm) cycles,
      recorded results (.inr (.inl rfl)) fun _ => rfl⟩
  | @ends run _ inFlight turn result fruitless cycles results held =>
    refine ⟨stopped, started, fewer (fun _ hj => by cases hj) cycles,
      recorded results (fruitless (ordered.closed_of_stopped h.stopped)) fun hlate => ?_⟩
    -- one that came late never has the turn
    have begins := h.late _ (mem_cycles.2 ⟨run, inFlight, rfl, rfl⟩) hlate
    exact absurd turn (underway.turns.begins run.id begins).1

theorem act (h : Ending e₀ e) (ordered : Orderly config e) (underway : Underway e) {deed : Deed}
    (allowed : e.Allows deed) : Ending e₀ (e.act deed) := by
  rcases deed.turn_or_other with ⟨job, heeds, rfl⟩ | other
  · exact h.turn ordered underway allowed
  · obtain ⟨onward, results, -, cycles⟩ := act_onward e other
    refine ⟨Bool.eq_false_iff.2 fun hr => ?_, Nat.le_trans h.started onward.started, ?_,
      fun x hx => h.results x (results ▸ hx)⟩
    · have running := onward.running hr
      rw [h.stopped] at running
      cases running
    · intro c hc hlate
      rcases cycles with cycles | ⟨cycles, running | begins⟩
      · exact onward.ready _ (h.late c (cycles ▸ hc) hlate)
      · rw [h.stopped] at running
        cases running
      · rw [cycles] at hc
        rcases List.mem_append.1 hc with hc | hc
        · exact onward.ready _ (h.late c hc hlate)
        · rw [List.mem_singleton.1 hc]
          exact begins

theorem leads (h : Ending e₀ e) (ordered : Orderly config e) (underway : Underway e)
    {deeds : List Deed} (l : Leads e deeds e') : Ending e₀ e' := by
  induction l with
  | start => exact h
  | next before deed allowed ih =>
    exact ih.act (ordered.leads before).2 (underway.leads ordered before) allowed

end Ending

/-! ## The jobs that are left -/

/-- Everybody has been told of the end. -/
structure Hushed (e : Engine) : Prop where
  gone : e.members.Gone
  pausing : ∀ run ∈ e.runs, ∀ left ends last, run.stage = .pausing left ends last →
    .resume run.id ∈ e.ready
  loop : ∀ job, e.loop.job? = some job → e.aborted = true ∧ job ∈ e.ready

theorem Underway.hushed (h : Underway e) (gone : e.members.Gone) (stopped : e.running = false) :
    Hushed e := by
  obtain ⟨cancelled, ended⟩ := h.polling.stopped stopped
  refine ⟨gone, ?_, ?_⟩
  · intro run hrun left ends last hs
    have placed := h.turns.placed run hrun
    unfold Placed at placed
    rw [hs] at placed
    dsimp only at placed
    rw [if_pos cancelled] at placed
    exact placed.2
  · intro job hj
    rcases ended with hl | aborted
    · rw [hl] at hj
      cases hj
    · exact ⟨aborted, h.polling.told aborted job hj⟩

namespace Hushed

/-- Nobody who has been told is missing. -/
theorem mono (h : Hushed e) (gone : e'.members.Gone) (runs : ∀ run ∈ e'.runs, run ∈ e.runs)
    (loop : e'.loop = e.loop) (aborted : e'.aborted = e.aborted)
    (ready : ∀ job ∈ e.ready, job ∈ e'.ready) : Hushed e' := by
  refine ⟨gone, ?_, ?_⟩
  · intro run hr left ends last hs
    exact ready _ (h.pausing run (runs run hr) left ends last hs)
  · intro job hj
    rw [loop] at hj
    rw [aborted]
    exact (h.loop job hj).imp_right (ready job)

/-- A cycle is over with its job. -/
theorem drop {job : Job} {id : Nat} (h : Hushed (e.goOn job)) (own : job = .start id ∨ job = .resume id)
    (other : e.loop.job? ≠ some (.resume id)) : Hushed (e.dropRun id) := by
  refine ⟨h.gone, ?_, ?_⟩
  · intro run hr left ends last hs
    obtain ⟨hr, hne⟩ := List.mem_filter.1 hr
    refine (List.mem_cons.1 (h.pausing run hr left ends last hs)).resolve_left fun heq => ?_
    rcases own with rfl | rfl
    · cases heq
    · obtain rfl := Job.resume.inj heq
      simp at hne
  · intro job' hj
    refine (h.loop job' hj).imp_right fun hm => (List.mem_cons.1 hm).resolve_left ?_
    rintro rfl
    rcases own with rfl | rfl
    · exact e.loop.job?_ne_start id hj
    · exact other hj

theorem closeChannel (h : Hushed e) : e.closeChannel = { e with channel := .closed } := by
  refine foldl_wake_of_mem (e := { e with channel := .closed }) fun r hr => ?_
  obtain ⟨hr, hp⟩ := List.mem_filter.1 hr
  cases hs : r.stage with
  | pausing left ends last => exact h.pausing r hr left ends last hs
  | _ =>
    rw [hs] at hp
    cases hp

theorem abortLoop (h : Hushed e) : e.abortLoop = e := by
  rcases abortLoop_cases e with ⟨-, heq⟩ | ⟨job, hj, heq⟩
  · exact heq
  · obtain ⟨aborted, hm⟩ := h.loop job hj
    have awake : Engine.wake { e with aborted := true } job = { e with aborted := true } :=
      wake_of_mem hm
    rw [heq, awake, ← aborted]

/-- A further stop wakes nobody. -/
theorem silence (h : Hushed e) :
    e.silence = { e with running := false, channel := .closed, members := e.members.close } := by
  have off : Hushed { e with running := false } :=
    h.mono h.gone (fun _ => id) rfl rfl fun _ => id
  have closed : Hushed { e with running := false, channel := .closed } :=
    h.mono h.gone (fun _ => id) rfl rfl fun _ => id
  unfold Engine.silence
  dsimp only
  rw [off.closeChannel, closed.abortLoop]

theorem settleRelease (h : Hushed e) : ∃ running channel members,
    e.settleRelease = { e with running, channel, members } := by
  unfold Engine.settleRelease
  split
  · exact ⟨_, _, _, h.silence⟩
  · exact ⟨e.running, e.channel, e.members, rfl⟩

end Hushed

/-- What is left to do once discovery is over. -/
def burden (e : Engine) : Nat :=
  (e.runs.map (·.stage.weight)).sum + e.ready.length + 2 * e.alarms.length

/-- Without a cycle there is less to do. -/
theorem weight_dropRun (hrun : run ∈ e.runs) :
    ((e.dropRun run.id).runs.map (·.stage.weight)).sum + 1 ≤ (e.runs.map (·.stage.weight)).sum := by
  have drop : ∀ l : List Run, run ∈ l →
      ((l.filter (·.id != run.id)).map (·.stage.weight)).sum + 1 ≤ (l.map (·.stage.weight)).sum := by
    intro l hl
    induction l with
    | nil => cases hl
    | cons r rest ih =>
      have fewer : ((rest.filter (·.id != run.id)).map (·.stage.weight)).sum ≤
          (rest.map (·.stage.weight)).sum :=
        (List.filter_sublist.map _).sum_le_sum fun _ _ => Nat.zero_le _
      have pos := r.stage.weight_pos
      rw [List.filter_cons, List.map_cons, List.sum_cons]
      split
      · next hne =>
        have hrest : run ∈ rest := (List.mem_cons.1 hl).resolve_left fun heq => by simp [heq] at hne
        have := ih hrest
        rw [List.map_cons, List.sum_cons]
        omega
      · omega
  exact drop e.runs hrun

/-- A cycle that pauses has less to do than one that waits for an answer. -/
theorem weight_setStage {left ends : Nat} {outcome : Except DiscoveryError (List Record)}
    (hrun : run ∈ e.runs) (stage : run.stage = .attempting left ends outcome) (left' ends' : Nat)
    (last : DiscoveryError) :
    ((e.setStage run.id (.pausing left' ends' last)).runs.map (·.stage.weight)).sum + 1 ≤
      (e.runs.map (·.stage.weight)).sum := by
  unfold setStage
  rw [List.map_map]
  refine Nat.succ_le_of_lt (List.sum_lt_sum _ _ ?_ ⟨run, hrun, ?_⟩)
  · intro r _
    dsimp only [Function.comp]
    split
    · exact r.stage.weight_pos
    · exact Nat.le_refl _
  · simp [stage, Stage.weight]

theorem Elsewhere.of_gone (x : Elsewhere e e') (gone : e.members.Gone) :
    ∃ members : Members, e' = { e with members } ∧ members.Gone := by
  cases x with
  | mk members fresh later now closed jobs alarms finished =>
  obtain ⟨gone', rfl, rfl⟩ := finished gone
  exact ⟨members, by simp, gone'⟩

/-- The poll loop does not wait for somebody else's cycle. -/
theorem Underway.not_own (h : Underway e) (hrun : run ∈ e.runs) (other : run.ofLoop = false) :
    e.loop.job? ≠ some (.resume run.id) := by
  intro hj
  obtain ⟨own, hown, hid, ho⟩ := h.polling.polls.own_cycle hj
  rw [h.turns.unique hown hrun hid, other] at ho
  cases ho

/-- A cycle that comes to its end leaves less to do. -/
theorem Hushed.burden_finish (h : Hushed (e.dropRun run.id)) (hrun : run ∈ e.runs)
    (other : run.ofLoop = false) (result : CycleResult) : (e.finish run result).burden ≤ e.burden := by
  obtain ⟨turn, queue, woken, hpass, length, -⟩ := passTurn_eq (e.dropRun run.id)
  have passed : Hushed { (e.dropRun run.id).passTurn with
      results := (run.id, result) :: (e.dropRun run.id).passTurn.results } := by
    rw [hpass]
    exact h.mono h.gone (fun _ => id) rfl rfl fun _ hm => List.mem_append_left _ hm
  obtain ⟨running, channel, members, heq⟩ := passed.settleRelease
  have less := weight_dropRun hrun
  unfold finish
  dsimp only
  rw [if_neg (by rw [other]; decide), heq, hpass]
  simp only [burden, List.length_append]
  have ready : (e.dropRun run.id).ready = e.ready := rfl
  have alarms : (e.dropRun run.id).alarms = e.alarms := rfl
  rw [ready, alarms]
  omega

/-- A job that goes on after the end leaves no more to do than there was. -/
theorem Taken.burden_le {job : Job} (h : Underway (e.goOn job)) (gone : e.members.Gone)
    (stopped : e.running = false) (t : Taken e job e') : e'.burden ≤ e.burden := by
  obtain ⟨cancelled, ended⟩ := h.polling.stopped stopped
  have hushed : Hushed (e.goOn job) := h.hushed gone stopped
  cases t with
  | timer concerns elsewhere =>
    obtain ⟨members, rfl, -⟩ := elsewhere.of_gone gone
    exact Nat.le_refl _
  | start id =>
    obtain ⟨-, -, run, hrun, rfl, -⟩ := h.turns.begins id List.mem_cons_self
    have other : run.ofLoop = false := Bool.eq_false_iff.2 fun own =>
      h.polling.begun run hrun own List.mem_cons_self
    have own : Hushed (e.dropRun run.id) := hushed.drop (.inl rfl) (h.not_own hrun other)
    have dropped : Hushed { e.dropRun run.id with
        results := (run.id, .error .shutdown) :: e.results } :=
      own.mono own.gone (fun _ => id) rfl rfl fun _ => id
    obtain ⟨running, channel, members, heq⟩ := dropped.settleRelease
    have less := weight_dropRun (e := e) hrun
    unfold startRun
    rw [if_neg (by rw [stopped]; decide), show settleRelease _ = _ from heq]
    have ready : (e.dropRun run.id).ready = e.ready := rfl
    have alarms : (e.dropRun run.id).alarms = e.alarms := rfl
    simp only [burden, ready, alarms]
    omega
  | loop =>
    unfold resumeLoop
    split
    · exact Nat.le_refl _
    · next live => rw [show e.loop = .ended from ended.resolve_right live]
  | stale missing => exact Nat.le_refl _
  | @resume run _ inFlight goes =>
    cases goes with
    | waits kept early => exact Nat.le_refl _
    | asks kept turn listening left stage =>
      exact absurd (listening.symm.trans cancelled) (by decide)
    | @pauses kept left _ _ _ stage finished failed =>
      obtain ⟨ends, first, later, heq, ⟨rfl, rfl⟩ | ⟨listening, -⟩⟩ := pause_eq e run left failed
      · rename_i last
        have less := weight_setStage inFlight stage (left - 1) ends last
        rw [heq]
        simp only [burden, List.length_append, List.length_cons, List.length_nil]
        omega
      · exact absurd (listening.symm.trans cancelled) (by decide)
    | @ends kept turn e₁ elsewhere result noop cause =>
      have other : run.ofLoop = false := Bool.eq_false_iff.2 fun own => by
        obtain ⟨next, hl⟩ := h.polling.own run inFlight own
        rcases ended with hended | aborted
        · exact absurd (hl.symm.trans hended) (by simp)
        · rw [own, show e.aborted = true from aborted] at kept
          cases kept
      have own : Hushed (e.dropRun run.id) := hushed.drop (.inr rfl) (h.not_own inFlight other)
      obtain ⟨members, rfl, gone'⟩ := elsewhere.of_gone gone
      have dropped : Hushed (Engine.dropRun { e with members } run.id) :=
        own.mono gone' (fun _ => id) rfl rfl fun _ => id
      exact dropped.burden_finish inFlight other result
    | abandoned ofLoop aborted =>
      obtain ⟨turn, queue, woken, heq, length, -⟩ := abandon_eq e run
      have less := weight_dropRun inFlight
      have alarms : (e.dropRun run.id).alarms = e.alarms := rfl
      rw [heq]
      simp only [burden, List.length_append, alarms]
      omega

/-- **After the end each job leaves less to do than before.** -/
theorem Underway.burden_turn (h : Underway e) (ordered : Orderly config e) (stopped : e.running = false)
    {job : Job} {heeds : Bool} (allowed : job ∈ e.ready) :
    (e.act (.turn job heeds)).burden < e.burden := by
  have taken : Taken _ job (e.act (.turn job heeds)) := h.turns.taken ordered allowed
  have le := taken.burden_le (h.take allowed)
    (ordered.sound.gone (ordered.closed_of_stopped stopped)) stopped
  have length := List.length_erase_of_mem allowed
  have pos := List.length_pos_of_mem allowed
  refine Nat.lt_of_le_of_lt le ?_
  simp only [burden]
  omega

/-- So does an alarm that is due. -/
theorem burden_jump {time : Nat} {a : Alarm} (ha : a ∈ e.alarms) (due : a.due ≤ time) :
    (e.jump time).burden < e.burden := by
  obtain ⟨woken, heq, sub, -⟩ := jump_eq e time
  have fewer := sub.length_le
  have split : (e.alarms.filter fun a => decide (a.due ≤ time)).length +
      (e.alarms.filter fun a => !decide (a.due ≤ time)).length = e.alarms.length :=
    (List.length_eq_length_filter_add _).symm
  have one : 0 < (e.alarms.filter fun a => decide (a.due ≤ time)).length :=
    List.length_pos_of_mem (List.mem_filter.2 ⟨ha, by simpa using due⟩)
  rw [heq]
  rw [List.length_map] at fewer
  simp only [burden, List.length_append]
  omega

/-- Where nothing can go on and nothing will, no cycle is in flight. -/
theorem InTurn.nobody_left (h : InTurn e) (ready : e.ready = []) (alarms : e.alarms = []) :
    e.runs = [] := by
  have nothing : ∀ time job, ¬ e.Awaits time job := by
    rintro time job (⟨-, hm⟩ | hm)
    · rw [ready] at hm
      cases hm
    · rw [alarms] at hm
      cases hm
  have queued : ∀ run ∈ e.runs, e.turn ≠ some run.id ∧ run.id ∈ e.queue := by
    intro run hrun
    have placed := h.placed run hrun
    unfold Placed at placed
    rw [ready] at placed
    split at placed
    · rcases placed with ⟨-, hm⟩ | hq | hm
      · cases hm
      · exact ⟨(h.queued _ hq).1, hq⟩
      · cases hm
    · exact absurd placed.2 (nothing _ _)
    · obtain ⟨-, hw⟩ := placed
      split at hw
      · cases hw
      · exact absurd hw (nothing _ _)
  refine List.eq_nil_iff_forall_not_mem.2 fun run hrun => ?_
  -- somebody has the turn that others queue for, and is in no queue
  cases ht : e.turn with
  | none =>
    have hq := (queued run hrun).2
    rw [h.busy ht] at hq
    cases hq
  | some id =>
    obtain ⟨holder, hholder, rfl⟩ := h.holder id ht
    exact (queued holder hholder).1 ht

/-- After the end discovery comes to rest. -/
theorem Underway.advance_rests (h : Underway e) (ordered : Orderly config e)
    (stopped : e.running = false) {limit : Nat} (enough : e.burden ≤ limit) :
    (e.advance (fun _ => false) limit).ready = [] ∧ (e.advance (fun _ => false) limit).alarms = [] := by
  induction limit generalizing e with
  | zero =>
    have none := Nat.le_zero.1 enough
    simp only [burden, Nat.add_eq_zero_iff, Nat.mul_eq_zero, List.length_eq_zero_iff] at none
    rw [advance]
    exact ⟨none.1.2, none.2.resolve_left (by decide)⟩
  | succ limit ih =>
    have follow : ∀ deed, e.Allows deed → (e.act deed).burden < e.burden →
        ((e.act deed).advance (fun _ => false) limit).ready = [] ∧
          ((e.act deed).advance (fun _ => false) limit).alarms = [] := fun deed allowed less =>
      ih (h.act ordered allowed) (ordered.act allowed).2
        (((Ending.refl h.turns stopped).act ordered h allowed).stopped) (by omega)
    rw [advance]
    split
    · next hempty =>
      have idle : e.ready = [] := by simpa using hempty
      rw [if_neg (by decide)]
      split
      · next time htime =>
        obtain ⟨allowed, a, ha, due⟩ := ordered.nextDue_allowed idle htime
        exact follow (.wait time) allowed (burden_jump ha (Nat.le_of_eq due))
      · next hnone =>
        refine ⟨idle, ?_⟩
        simpa [nextDue?, List.min?_eq_none_iff] using hnone
    · next hready =>
      cases hr : e.ready with
      | nil => simp [hr] at hready
      | cons job rest =>
        obtain ⟨allowed, hturn⟩ := turnOver_eq hr
        rw [hturn]
        exact follow (.turn job) allowed (h.burden_turn ordered stopped allowed)

/-! ## Discovery -/

theorem start_held {directory : Directory} {reactions : List Reaction}
    (h : start config directory reactions = .ok e) : Held e := by
  unfold start at h
  split at h
  · cases h
  · split at h
    · cases h
    · obtain rfl := Except.ok.inj h
      exact fun hr => by cases hr

theorem Reachable.held (h : Reachable config e) : Held e := by
  obtain ⟨directory, reactions, e₀, deeds, hr, h₀, l⟩ := h
  have ordered := (start_orderly hr h₀).2
  induction l with
  | start => exact start_held h₀
  | next before deed allowed ih =>
    exact ih.act (ordered.leads before).2 ((start_underway h₀).leads ordered before).turns allowed

/-- What holds at any time after a moment `e` at which discovery is over. -/
structure Aftermath (e e' : Engine) : Prop where
  stopped : e'.running = false
  /-- Nobody was told anything since. -/
  notices : e'.members.notices = e.members.notices
  snapshot : e'.members.snapshot = []
  timers : e'.members.timers = []
  failures : ∀ key, (e'.fail key).1 = .untracked
  calls : e'.call.2.answer? e'.call.1 = some (.error .shutdown)
  /-- A cycle that came to its end since tells of no change, and one that came late was turned
  away. -/
  outcomes : ∀ id result, (id, result) ∈ e'.results → (id, result) ∈ e.results ∨
    (Fruitless result ∧ (e.started ≤ id → result = .error .shutdown))
  /-- Somebody's cycle that is in flight comes to its end once jobs and the clock have gone on for
  long enough. -/
  answers : ∃ steps, ∀ limit, steps ≤ limit → ∀ id, (id, false) ∈ e'.cycles →
    ∃ result, (e'.advance (fun _ => false) limit).result? id = some result ∧ Fruitless result

/-- Every cycle in flight has its answer once discovery has come to rest. -/
theorem Underway.answered (h : Underway e) (ordered : Orderly config e) (stopped : e.running = false)
    {limit : Nat} (enough : e.burden ≤ limit) {id : Nat} (hid : (id, false) ∈ e.cycles) :
    ∃ result, (e.advance (fun _ => false) limit).result? id = some result ∧ Fruitless result := by
  obtain ⟨deeds, l⟩ := ordered.advance_leads (fun _ => false) limit
  obtain ⟨ready, alarms⟩ := h.advance_rests ordered stopped enough
  have ending := (Ending.refl h.turns stopped).leads ordered h l
  have rest := (h.leads ordered l).turns.nobody_left ready alarms
  have answered := h.answered_or_in_flight ordered l hid
  generalize e.advance (fun _ => false) limit = e' at *
  obtain ⟨x, hx⟩ := answered.resolve_left fun hc => by
    obtain ⟨run, hrun, -⟩ := mem_cycles.1 hc
    rw [rest] at hrun
    cases hrun
  -- the first outcome of this number is one that came after the end
  cases hf : e'.results.find? (·.1 == id) with
  | none => exact absurd (List.find?_eq_none.1 hf _ hx) (by simp)
  | some found =>
    have hkey : found.1 = id := by simpa using List.find?_some hf
    refine ⟨found.2, by simp [result?, hf], ?_⟩
    rcases ending.results found (List.mem_of_find?_eq_some hf) with past | ⟨fruitless, -⟩
    · obtain ⟨run, hrun, hid', -⟩ := mem_cycles.1 hid
      exact absurd (hid'.trans hkey.symm) ((h.turns.finished found past).2 run hrun)
    · exact fruitless

/-- **Nothing happens after the end.** A stop ends discovery, and an instance that its owner let go
is over with the last call in flight. From then on, whatever else happens, nobody is told anything, no
peer is tracked and no timer is armed, failures concern nobody and calls are turned away. The cycles
that were in flight change nothing, and each call among them is answered. -/
theorem nothing_after_the_end (h : Reachable config e) :
    (e.act .stop).running = false ∧
    (e.act .release).released = true ∧
    (e.released = true → (∀ run ∈ e.runs, run.ofLoop = true) → e.running = false) ∧
    (e.running = false → ∀ deeds e', Leads e deeds e' → Aftermath e e') := by
  have ordered := h.orderly
  have underway := h.underway
  refine ⟨?_, ?_, ?_, ?_⟩
  · obtain ⟨aborted, woken, members, heq⟩ := stop_eq e
    rw [show e.act .stop = _ from heq]
  · obtain ⟨running, channel, aborted, woken, members, heq, -⟩ :=
      settleRelease_eq { e with released := true }
    rw [show e.act .release = _ from heq]
  · intro released own
    refine Bool.eq_false_iff.2 fun running => ?_
    obtain ⟨id, hid⟩ := h.held released running
    obtain ⟨run, hrun, -, other⟩ := mem_cycles.1 hid
    exact absurd ((own run hrun).symm.trans other) (by decide)
  · intro stopped deeds e' l
    obtain ⟨moves, ordered'⟩ := ordered.leads l
    have ending := (Ending.refl underway.turns stopped).leads ordered underway l
    obtain ⟨gone, -, notices⟩ := moves.of_gone ordered.sound
      (ordered.sound.gone (ordered.closed_of_stopped stopped))
    have untracked : ∀ key, e'.members.slot? key = none := fun key => by
      rw [slot?, gone.nobody key]
    refine ⟨ending.stopped, notices, ?_, gone.timers, ?_, ?_, fun id result hx => ending.results _ hx,
      e'.burden, fun limit enough id hid =>
        (underway.leads ordered l).answered ordered' ending.stopped enough hid⟩
    · refine List.filterMap_eq_nil_iff.2 fun entry he => ?_
      have found := KeyMap.find?_eq_some_iff.2 he
      rw [gone.nobody entry.1] at found
      cases found
    · intro key
      show (e'.members.fail Members.tell key).1 = .untracked
      rw [Members.fail, untracked key]
    · rw [call, if_neg (by rw [ending.stopped]; decide)]
      rfl

/-- Discovery is stopped while one call waits for the directory and another for its turn. The answer
that comes in adds nobody, and the call behind it is turned away. -/
theorem end_with_calls_in_flight : ∃ e e',
    session .standard
      (.scripted ⟨[⟨.ok [.plain "a" 0], .zero⟩, ⟨.ok [.plain "b" 0], .ofMillis 50⟩], none⟩) []
      [.turn .loop, .turn (.resume 0), .turn (.resume 0), .call, .turn (.resume 1), .call, .stop] =
        some e ∧
    e.replay [.turn .loop, .wait 50000000, .turn (.resume 1), .turn (.resume 2)] = some e' ∧
    e.running = false ∧ e.cycles = [(1, false), (2, false)] ∧
    e'.result? 1 = some (.ok ⟨true, 1, ⟨[], [], []⟩, .disabled⟩) ∧
    e'.result? 2 = some (.error .shutdown) ∧ Aftermath e e' := by
  obtain ⟨e, he, hp⟩ := (Option.any_eq_true _ _).1 (show
    (session .standard
      (.scripted ⟨[⟨.ok [.plain "a" 0], .zero⟩, ⟨.ok [.plain "b" 0], .ofMillis 50⟩], none⟩) []
      [.turn .loop, .turn (.resume 0), .turn (.resume 0), .call, .turn (.resume 1), .call,
        .stop]).any (fun e => !e.running && decide (e.cycles = [(1, false), (2, false)]) &&
          (e.replay [.turn .loop, .wait 50000000, .turn (.resume 1), .turn (.resume 2)]).any fun e' =>
            decide (e'.result? 1 = some (.ok ⟨true, 1, ⟨[], [], []⟩, .disabled⟩)) &&
              decide (e'.result? 2 = some (.error .shutdown))) = true by decide +kernel)
  simp only [Bool.and_eq_true, decide_eq_true_eq] at hp
  obtain ⟨⟨stopped, cycles⟩, hreplay⟩ := hp
  obtain ⟨e', he', hp'⟩ := (Option.any_eq_true _ _).1 hreplay
  simp only [Bool.and_eq_true, decide_eq_true_eq] at hp'
  have reachable : Reachable .standard e := reachable_of_session (by simp) he
  have finished : e.running = false := by simpa using stopped
  obtain ⟨-, -, -, aftermath⟩ := nothing_after_the_end reachable
  exact ⟨e, e', he, he', finished, cycles, hp'.1, hp'.2, aftermath finished _ _ (replay_leads he')⟩

end Engine

end Roster
