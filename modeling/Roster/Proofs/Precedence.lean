import Roster.Proofs.Freshness

/-!
# Proofs.Precedence — one cycle after the other

* `asked_holds`: a cycle in flight that has called the directory has the turn.
* `InBlocks`: the calls of one cycle come without a call of another in between.
* `held_meanwhile`: while a cycle that has called is in flight, no other calls and none is answered.
* `TurnedAway`: a cycle that comes too late. It never calls, and it is told so.
* `cycles_never_interleave`: what the order of turns means for calls and answers.
-/

namespace Roster

open Members Relation

namespace Engine

variable {config : Config} {e e' : Engine} {run : Run} {deed : Deed}

/-! ## Calls and the turn -/

/-- A cycle that has not had its turn has called nobody. -/
theorem Asking.unasked (h : Asking e) (inFlight : run ∈ e.runs) (stage : run.stage = .queued) :
    e.callsOf run.id = [] := by
  have spent := h.budget run inFlight
  rw [stage] at spent
  simp only [Stage.toCome] at spent
  exact List.eq_nil_of_length_eq_zero (by omega)

theorem mem_callsOf {c : DirectoryCall} {id : Nat} : c ∈ e.callsOf id ↔ c ∈ e.calls ∧ c.run = id := by
  simp [callsOf]

/-- A cycle in flight that has called has the turn. -/
theorem asked_holds (h : Reachable config e) {c : DirectoryCall} (asked : c ∈ e.calls)
    (inFlight : ∃ run ∈ e.runs, run.id = c.run) : e.turn = some c.run := by
  obtain ⟨run, hrun, hid⟩ := inFlight
  rw [← hid]
  refine (h.underway.turns.placed run hrun).turn fun stage => ?_
  have mine : c ∈ e.callsOf run.id := mem_callsOf.2 ⟨asked, hid.symm⟩
  rw [h.asking.unasked hrun stage] at mine
  cases mine

/-- A cycle that has called and has not the turn is over. -/
theorem over_of_asked (h : Reachable config e) {c : DirectoryCall} (asked : c ∈ e.calls)
    (other : e.turn ≠ some c.run) : Over e c.run :=
  ⟨h.asking.known c asked, fun run hrun hid => other (asked_holds h asked ⟨run, hrun, hid⟩)⟩

/-- The calls of one cycle come without a call of another in between. Once another calls, the cycle is
over. -/
def InBlocks (e : Engine) : Prop :=
  ∀ later c earlier, e.calls = later ++ c :: earlier →
    ∀ c' ∈ earlier, c'.run ≠ c.run → Over e c'.run ∧ ∀ c'' ∈ later, c''.run ≠ c'.run

theorem Reachable.in_blocks (h : Reachable config e) : InBlocks e := by
  refine h.induct (P := InBlocks) (fun directory reactions e₀ h₀ => ?_)
    fun e deed reached allowed ih => ?_
  · intro later c earlier split
    rw [(start_idle h₀).2] at split
    simp at split
  · have proceeds := reached.proceeds allowed
    intro later c earlier split c' hc' other
    rcases proceeds.calls with same | ⟨run, hrun, -, holds, calls⟩
    · obtain ⟨isOver, since⟩ := ih later c earlier (same ▸ split) c' hc' other
      exact ⟨(proceeds.stays_over isOver).1, since⟩
    · rw [calls] at split
      rcases List.cons_eq_append_iff.1 split with ⟨rfl, heq⟩ | ⟨later', rfl, split'⟩
      · -- the new call is the latest
        obtain ⟨rfl, rfl⟩ := List.cons.inj heq
        have waits : e.turn ≠ some c'.run := by
          rw [holds]
          exact fun heq => other (Option.some.inj heq).symm
        exact ⟨(proceeds.stays_over (over_of_asked reached hc' waits)).1, by simp⟩
      · obtain ⟨isOver, since⟩ := ih later' c earlier split' c' hc' other
        refine ⟨(proceeds.stays_over isOver).1, fun c'' hc'' => ?_⟩
        rcases List.mem_cons.1 hc'' with rfl | hc''
        · exact isOver.gone run hrun
        · exact since c'' hc''

/-- **While a cycle that has called is in flight**, no other calls, and none has an answer. -/
theorem held_meanwhile (h : Reachable config e) {c : DirectoryCall} (asked : c ∈ e.calls)
    {deeds : List Deed} (l : Leads e deeds e') (inFlight : ∃ run ∈ e'.runs, run.id = c.run) :
    Continues e.members e'.members ∧
      ∃ more, e'.calls = more ++ e.calls ∧ ∀ c' ∈ more, c'.run = c.run := by
  have known := h.asking.known c asked
  induction l with
  | start => exact ⟨.refl _, [], rfl, by simp⟩
  | @next deeds e' before deed allowed ih =>
    have reached := h.leads before
    have proceeds := reached.proceeds allowed
    have still := in_flight_meanwhile reached (Leads.start.next deed allowed)
      (Nat.lt_of_lt_of_le known (started_le_of_leads h before)) inFlight
    obtain ⟨continues, more, calls, own⟩ := ih still
    have holds : e'.turn = some c.run :=
      asked_holds reached (calls ▸ List.mem_append_right more asked) still
    refine ⟨continues.trans ?_, ?_⟩
    · rcases reached.answers allowed with unanswered | ⟨run, answer, answers⟩
      · exact unanswered.continues
      · -- the cycle would be over
        have mine : run.id = c.run := Option.some.inj (answers.holds.symm.trans holds)
        obtain ⟨r, hr, hid⟩ := inFlight
        obtain ⟨report, told, -⟩ := answers.outcome
        exact absurd (hid.trans mine.symm) (proceeds.told_once told r hr)
    · rcases proceeds.calls with same | ⟨run, -, -, holds', calls'⟩
      · exact ⟨more, same.trans calls, own⟩
      · have mine : run.id = c.run := Option.some.inj (holds'.symm.trans holds)
        refine ⟨⟨e'.now, run.id⟩ :: more, by rw [calls', calls]; rfl, ?_⟩
        rintro c' (_ | ⟨_, hc'⟩)
        · exact mine
        · exact own c' hc'

/-- The one that has the turn later calls later, and the one that has it first is over by then. -/
theorem turns_in_order (h : Reachable config e) {a b : Nat} (first : e.turn = some a)
    {deeds : List Deed} (l : Leads e deeds e') (then' : e'.turn = some b) (other : a ≠ b) :
    e.callsOf b = [] ∧ Over e' a := by
  have reached := h.leads l
  refine ⟨List.eq_nil_iff_forall_not_mem.2 fun c hc => ?_, ?_, fun run hrun hid => ?_⟩
  · obtain ⟨asked, rfl⟩ := mem_callsOf.1 hc
    have still := in_flight_meanwhile h l (h.asking.known c asked)
      (reached.underway.turns.holder _ then')
    exact other (Option.some.inj (first.symm.trans (asked_holds h asked still)))
  · obtain ⟨run, hrun, rfl⟩ := h.underway.turns.holder a first
    exact Nat.lt_of_lt_of_le (h.underway.turns.known run hrun) (started_le_of_leads h l)
  · have still := turn_meanwhile h l first ⟨run, hrun, hid⟩
    exact other (Option.some.inj (still.symm.trans then'))

/-! ## Too late -/

/-- A cycle that has not begun when everything is over. -/
structure TurnedAway (e : Engine) (id : Nat) : Prop where
  ended : e.members.closed = true
  stands : Stands e id .queued
  calls : e.callsOf id = []
  results : ∀ x ∈ e.resultsOf id, x.2 = .error .shutdown

theorem TurnedAway.of_queued (h : Reachable config e) (inFlight : run ∈ e.runs)
    (stage : run.stage = .queued) (ended : e.members.closed = true) : TurnedAway e run.id := by
  have turns := h.underway.turns
  refine ⟨ended, ⟨turns.known run inFlight, fun r hr hid => ?_⟩, h.asking.unasked inFlight stage,
    fun x hx => ?_⟩
  · rw [turns.unique hr inFlight hid, stage]
  · obtain ⟨hx, hid⟩ := List.mem_filter.1 hx
    exact absurd (eq_of_beq hid).symm ((turns.finished x hx).2 run inFlight)

/-- It stays so, whatever happens: only the cycle itself could change this. -/
theorem TurnedAway.act {id : Nat} (h : TurnedAway e id) (p : Proceeds e deed e')
    (ended : e'.members.closed = true) : TurnedAway e' id := by
  obtain ⟨stands, calls⟩ := p.stands h.stands h.ended
  refine ⟨ended, stands, calls.trans h.calls, fun x hx => ?_⟩
  have old : x ∈ e.results → x.2 = .error .shutdown := fun hm =>
    h.results x (List.mem_filter.2 ⟨hm, (List.mem_filter.1 hx).2⟩)
  obtain ⟨hx, hid⟩ := List.mem_filter.1 hx
  cases p with
  | refused inFlight other runs calls results =>
    rw [results] at hx
    rcases List.mem_cons.1 hx with rfl | hx
    · rfl
    · exact old hx
  | ends inFlight holds result late runs calls results =>
    rw [results] at hx
    rcases List.mem_cons.1 hx with rfl | hx
    · exact late (h.stands.stage _ inFlight (eq_of_beq hid)) h.ended
    · exact old hx
  | besides runs calls results => exact old (results ▸ hx)
  | begins ofLoop runs calls results => exact old (results ▸ hx)
  | asks inFlight holds stage runs calls results => exact old (results ▸ hx)
  | pauses inFlight holds stage failed runs calls results => exact old (results ▸ hx)
  | givenUp inFlight own runs calls results => exact old (results ▸ hx)

theorem TurnedAway.leads {id : Nat} (h : TurnedAway e id) (reached : Reachable config e)
    {deeds : List Deed} (l : Leads e deeds e') : TurnedAway e' id := by
  induction l with
  | start => exact h
  | next before deed allowed ih =>
    have now := reached.leads before
    exact ih.act (now.proceeds allowed) (ended_lasts now (Leads.start.next deed allowed) ih.ended)

/-- When its turn has come it is told so at once, and does not call. -/
theorem told_at_once (h : Reachable config e) (inFlight : run ∈ e.runs) (stage : run.stage = .queued)
    (ended : e.members.closed = true) (holds : e.turn = some run.id)
    (kept : (run.ofLoop && e.aborted) = false) (heeds : Bool) :
    e.Allows (.turn (.resume run.id) heeds) ∧
      (e.act (.turn (.resume run.id) heeds)).results = (run.id, .error .shutdown) :: e.results ∧
      (e.act (.turn (.resume run.id) heeds)).calls = e.calls := by
  have turns := h.underway.turns
  have ends : e.act (.turn (.resume run.id) heeds) = _ :=
    turns.concludes inFlight (.refused stage ended) holds kept
  obtain ⟨-, calls, results, -⟩ :=
    finish_runs { e with ready := e.ready.erase (.resume run.id) } run (.error .shutdown)
  rw [ends, conclude_stopped run rfl]
  refine ⟨?_, results, calls⟩
  have placed := turns.placed run inFlight
  unfold Placed at placed
  rw [stage] at placed
  rcases placed with ⟨-, ready⟩ | waits | begins
  · exact ready
  · exact absurd holds (turns.queued _ waits).1
  · exact absurd holds (turns.begins _ begins).1

/-! ## Discovery -/

/-- **Cycles never interleave.** Only the cycle with the turn calls the directory, and only the cycle
with the turn comes to its end, with an answer or without one; a cycle that was turned away has never
begun. Of two cycles, the one that has the turn later has not called while the first has it, and by then
the first is over: it calls nobody from then on, and its outcome stays what it is. So the calls of one
cycle come without a call of another in between, and as long as a cycle that has called is in flight, no
other is answered: what it applies was asked for after the latest answer before it had been applied. A
cycle that has not had its turn when everything is over never calls, and it is told so at its turn. -/
theorem cycles_never_interleave (h : Reachable config e) :
    (∀ deed, e.Allows deed →
      ((e.act deed).calls = e.calls ∨
        ∃ id, e.turn = some id ∧ (e.act deed).calls = ⟨e.now, id⟩ :: e.calls) ∧
      ((e.act deed).results = e.results ∨
        ∃ id result, (e.act deed).results = (id, result) :: e.results ∧
          (e.turn = some id ∨ (e.callsOf id = [] ∧ result = .error .shutdown))) ∧
      (Unanswered e (e.act deed) ∨ ∃ run answer, Answers e run answer deed (e.act deed))) ∧
    (∀ a deeds e' b, e.turn = some a → Leads e deeds e' → e'.turn = some b → a ≠ b →
      e.callsOf b = [] ∧ ∀ deeds' e'', Leads e' deeds' e'' →
        Over e'' a ∧ e''.callsOf a = e'.callsOf a ∧ e''.resultsOf a = e'.resultsOf a) ∧
    InBlocks e ∧
    (∀ c ∈ e.calls, ∀ deeds e', Leads e deeds e' → (∃ run ∈ e'.runs, run.id = c.run) →
      Continues e.members e'.members ∧
        ∃ more, e'.calls = more ++ e.calls ∧ ∀ c' ∈ more, c'.run = c.run) ∧
    ∀ run ∈ e.runs, run.stage = .queued → e.members.closed = true →
      (∀ deeds e', Leads e deeds e' →
        e'.callsOf run.id = [] ∧ ∀ x ∈ e'.resultsOf run.id, x.2 = .error .shutdown) ∧
      (e.turn = some run.id → (run.ofLoop && e.aborted) = false → ∀ heeds,
        e.Allows (.turn (.resume run.id) heeds) ∧
        (e.act (.turn (.resume run.id) heeds)).results = (run.id, .error .shutdown) :: e.results ∧
        (e.act (.turn (.resume run.id) heeds)).calls = e.calls) := by
  refine ⟨fun deed allowed => ?_, fun a deeds e' b first l later other => ?_, h.in_blocks,
    fun c asked deeds e' l inFlight => held_meanwhile h asked l inFlight,
    fun run inFlight stage ended => ⟨fun deeds e' l => ?_, told_at_once h inFlight stage ended⟩⟩
  · have proceeds := h.proceeds allowed
    refine ⟨?_, ?_, h.answers allowed⟩
    · rcases proceeds.calls with same | ⟨run, -, -, holds, calls⟩
      · exact .inl same
      · exact .inr ⟨run.id, holds, calls⟩
    · rcases proceeds.results with same | ⟨run, inFlight, result, results, -, ⟨-, holds⟩ | turned⟩
      · exact .inl same
      · exact .inr ⟨run.id, result, results, .inl holds⟩
      · obtain ⟨⟨_, rfl⟩, other, refused⟩ := turned
        obtain ⟨-, -, r, hr, hid, stage⟩ := h.underway.turns.begins run.id allowed
        refine .inr ⟨run.id, result, results, .inr ⟨?_, refused⟩⟩
        rw [← hid]
        exact h.asking.unasked hr stage
  · obtain ⟨unasked, isOver⟩ := turns_in_order h first l later other
    exact ⟨unasked, fun deeds' e'' l' => isOver.leads (h.leads l) l'⟩
  · have away := (TurnedAway.of_queued h inFlight stage ended).leads h l
    exact ⟨away.calls, away.results⟩

/-- A call waits for the directory, and another behind it for its turn. When the second has its turn the
first is over for good; if discovery is stopped before, the second never calls. -/
theorem second_call_waits : ∃ e e',
    session .standard
      (.scripted ⟨[⟨.ok [.plain "a" 0], .zero⟩, ⟨.ok [.plain "b" 0], .ofMillis 100⟩], none⟩) []
      [.turn .loop, .turn (.resume 0), .turn (.resume 0), .call, .turn (.resume 1), .call] = some e ∧
    e.replay [.wait 100000000, .turn (.resume 1)] = some e' ∧
    e.turn = some 1 ∧ e'.turn = some 2 ∧ e.callsOf 2 = [] ∧
    (∀ deeds e'', Leads e' deeds e'' →
      Over e'' 1 ∧ e''.callsOf 1 = e'.callsOf 1 ∧ e''.resultsOf 1 = e'.resultsOf 1) ∧
    ∀ deeds e'', Leads (e.act .stop) deeds e'' →
      e''.callsOf 2 = [] ∧ ∀ x ∈ e''.resultsOf 2, x.2 = .error .shutdown := by
  obtain ⟨e, he, hp⟩ := (Option.any_eq_true _ _).1 (show
    (session .standard
      (.scripted ⟨[⟨.ok [.plain "a" 0], .zero⟩, ⟨.ok [.plain "b" 0], .ofMillis 100⟩], none⟩) []
      [.turn .loop, .turn (.resume 0), .turn (.resume 0), .call, .turn (.resume 1), .call]).any
        (fun e => decide (e.turn = some 1) &&
          (e.replay [.wait 100000000, .turn (.resume 1)]).any (fun e' => decide (e'.turn = some 2)) &&
          (e.act .stop).members.closed && (e.act .stop).runs.any (fun r => r.id == 2 &&
            match r.stage with
            | .queued => true
            | _ => false)) = true by decide +kernel)
  simp only [Bool.and_eq_true, decide_eq_true_eq] at hp
  obtain ⟨⟨⟨first, hreplay⟩, ended⟩, hrun⟩ := hp
  obtain ⟨e', he', later⟩ := (Option.any_eq_true _ _).1 hreplay
  obtain ⟨run, inFlight, hrun⟩ := List.any_eq_true.1 hrun
  obtain ⟨hid, hstage⟩ := Bool.and_eq_true_iff.1 hrun
  have stage : run.stage = .queued := by
    split at hstage
    · assumption
    · cases hstage
  have h : Reachable .standard e := reachable_of_session (by simp) he
  have h' : Reachable .standard (e.act .stop) := h.leads (Leads.start.next .stop trivial)
  obtain ⟨-, order, -⟩ := cycles_never_interleave h
  obtain ⟨-, -, -, -, late⟩ := cycles_never_interleave h'
  obtain ⟨unasked, isOver⟩ := order 1 _ e' 2 first (replay_leads he') (of_decide_eq_true later) (by simp)
  have away := (late run inFlight stage ended).1
  rw [eq_of_beq hid] at away
  exact ⟨e, e', he, he', first, of_decide_eq_true later, unasked, isOver, away⟩

end Engine

end Roster
