import Roster.Proofs.Exclusion
import Roster.Proofs.Listing
import Roster.Proofs.Outcomes

/-!
# Proofs.Freshness — whoever is tracked or announced is so under the record of the latest cycle

* `Answers`: a cycle comes to its end with an answer.
* `Faithful`: the peers are tracked as they are listed, and the listener was told of every announcement.
  `Faithful.act`: a deed leaves it so, and either no cycle has an answer or one comes to its end.
* `Admitted`: every cycle on record has taken its candidates from an answer.
* `peers_are_as_listed`: what is tracked and announced at any point before the end.
-/

namespace Roster

open Members Relation

namespace Engine

variable {config : Config} {e e' : Engine} {deed : Deed}

/-! ## Answers -/

/-- The answer that a cycle applies when it goes on. -/
def inHand? (e : Engine) (run : Run) : Option (List Record) :=
  if run.ofLoop && e.aborted then none
  else
    match run.stage with
    | .attempting _ ends (.ok answer) => if ends ≤ e.now then some answer else none
    | _ => none

theorem inHand?_eq_some_iff {run : Run} {answer : List Record} :
    e.inHand? run = some answer ↔ (run.ofLoop && e.aborted) = false ∧
      ∃ left ends, run.stage = .attempting left ends (.ok answer) ∧ ends ≤ e.now := by
  unfold inHand?
  cases run.ofLoop && e.aborted with
  | true => simp
  | false =>
    rcases run.stage with _ | ⟨left, ends, _ | reply⟩ | _
    · simp
    · simp
    · by_cases due : ends ≤ e.now <;> simp [due]
    · simp

/-- A cycle that has the turn comes to its end with an answer. Its candidates go on record, and no
others. -/
structure Answers (e : Engine) (run : Run) (answer : List Record) (deed : Deed) (e' : Engine) : Prop where
  job : ∃ heeds, deed = .turn (.resume run.id) heeds
  inFlight : run ∈ e.runs
  holds : e.turn = some run.id
  stage : ∃ left ends, run.stage = .attempting left ends (.ok answer) ∧ ends ≤ e.now
  outcome : ∃ report, e'.results = (run.id, .ok report) :: e.results ∧ report.resolved = true
  history : ∃ later, e'.members.history =
      later ++ ⟨e.now, .resolved (e.found answer).1⟩ :: e.members.history ∧
    ∀ entry ∈ later, ∀ candidates, entry.what ≠ .resolved candidates

/-- No cycle comes to its end with an answer. -/
structure Unanswered (e e' : Engine) : Prop where
  continues : Continues e.members e'.members
  outcome : ∀ id report, e'.results = (id, .ok report) :: e.results → report.resolved = false

theorem Unanswered.of_results (continues : Continues e.members e'.members)
    (results : e'.results = e.results) : Unanswered e e' :=
  ⟨continues, fun _ _ h => absurd (results.symm.trans h).symm (List.cons_ne_self _ _)⟩

/-- What is tracked is tracked as it is listed, and the listener was told of every announcement. -/
structure Faithful (m : Members) : Prop where
  settled : ∀ key, m.Settled key
  voiced : m.Voiced

theorem Faithful.interlude {m m' : Members} (h : Faithful m) (i : Interlude m m') : Faithful m' :=
  ⟨fun key => (i.abides key).settled (h.settled key), i.voiced h.voiced⟩

/-- Nothing has changed here. -/
theorem Faithful.congr {m m' : Members} (h : Faithful m) (closed : m'.closed = m.closed)
    (slots : m'.slots = m.slots) (history : m'.history = m.history) (told : m'.told = m.told) :
    Faithful m' := by
  refine ⟨fun key => ?_, ?_⟩
  · have same : m'.record? key = m.record? key := by
      rw [record?_eq, record?_eq, slot?, slots]
      rfl
    unfold Members.Settled
    rw [closed, history, same]
    exact h.settled key
  · unfold Members.Voiced
    rw [told, history]
    exact h.voiced

theorem Faithful.tally {m : Members} (h : Faithful m) (tally : Tally) : Faithful { m with tally } :=
  h.congr rfl rfl rfl rfl

theorem Faithful.pardon {m : Members} (h : Faithful m) (key : PeerKey) : Faithful (m.pardon key).2 :=
  ⟨h.settled, h.voiced⟩

theorem Faithful.close {m : Members} (h : Faithful m) : Faithful m.close :=
  ⟨fun _ => .inr ⟨rfl, rfl⟩, h.voiced⟩

/-! ## Deeds -/

theorem Quiet.faithful (q : Quiet e e') (h : Faithful e.members) :
    Faithful e'.members ∧ Continues e.members e'.members := by
  cases q with
  | aside a => exact ⟨a.members ▸ h, .of_eq (congrArg _ a.members)⟩
  | write remark => exact ⟨h.congr rfl rfl rfl rfl, .of_eq rfl⟩
  | count hf => exact ⟨h.congr rfl rfl rfl rfl, .of_eq rfl⟩
  | fruitless id result hr => exact ⟨h, .refl _⟩
  | close => exact ⟨h.close, .entry rfl (by simp)⟩

theorem Quietly.faithful (q : Quietly e e') (h : Faithful e.members) :
    Faithful e'.members ∧ Unanswered e e' := by
  have both : Faithful e'.members ∧ Continues e.members e'.members := by
    induction q with
    | refl => exact ⟨h, .refl _⟩
    | tail _ q ih =>
      obtain ⟨before, continues⟩ := ih
      obtain ⟨after, more⟩ := q.faithful before
      exact ⟨after, continues.trans more⟩
  obtain ⟨after, continues⟩ := both
  obtain ⟨more, results, fruitless⟩ := q.uneventful.results
  refine ⟨after, continues, fun id report ends => ?_⟩
  have added : more = [(id, .ok report)] :=
    List.append_cancel_right (results.symm.trans ends)
  rw [fruitless (id, .ok report) (by simp [added]) report rfl]
  rfl

/-- The end of a cycle with an answer. -/
theorem conclusion_faithful (ordered : Orderly config e) (h : Faithful e.members) (id : Nat)
    (answer : List Record) : Faithful (e.conclusion id answer).members ∧
      ∃ later, (e.conclusion id answer).members.history =
          later ++ ⟨e.now, .resolved (e.found answer).1⟩ :: e.members.history ∧
        ∀ entry ∈ later, ∀ candidates, entry.what ≠ .resolved candidates := by
  obtain ⟨continues, voiced, settled⟩ := reconcile_settles (ordered.briefed answer).sound
    (ordered.briefed answer).polite (briefed_own e answer)
  obtain ⟨journal, hb⟩ := briefed_eq e answer
  obtain ⟨tally, hm⟩ := conclusion_members e id answer
  obtain ⟨later, hist, unresolved⟩ := continues
  have heard : (e.briefed answer).members.Voiced := by
    rw [hb]
    exact h.voiced
  have done : Faithful (reconcile Members.tell (e.found answer).1 (e.briefed answer).members).2 :=
    ⟨settled, voiced heard⟩
  rw [hm]
  refine ⟨done.tally tally, later, ?_, unresolved⟩
  dsimp only
  rw [hist, hb]
  rfl

/-- A query that ends without an answer. -/
theorem conclude_quietly (run : Run) (error : DiscoveryError) :
    Quietly e (e.conclude run (.error error)) := by
  cases hc : error.isCancelled with
  | true =>
    rw [conclude_stopped run hc]
    exact finish_fruitless run fun report hr => by cases hr
  | false =>
    rw [conclude_failed run hc]
    exact (ReflTransGen.head (.write _) unresolve_quietly).trans
      (finish_fruitless run fun report hr => (Except.ok.inj hr).symm)

/-- A cycle that goes on applies the answer that it has in hand, and comes to its end; without one it
goes on quietly. -/
theorem Resumes.quietly_or_answered {run : Run} (r : Resumes e run e') :
    (e.inHand? run = none ∧ Quietly e e') ∨ ∃ answer, e.inHand? run = some answer ∧
      e.turn = some run.id ∧ e' = (e.resolve answer).2.finish run (.ok (e.resolve answer).1) := by
  have idle : (∀ left ends answer, run.stage ≠ .attempting left ends (.ok answer)) →
      e.inHand? run = none := fun other =>
    Option.eq_none_iff_forall_ne_some.2 fun answer h => by
      obtain ⟨-, left, ends, stage, -⟩ := inHand?_eq_some_iff.1 h
      exact other left ends answer stage
  cases r with
  | waits early =>
    refine .inl ⟨Option.eq_none_iff_forall_ne_some.2 fun answer h => ?_, .refl⟩
    obtain ⟨-, left, ends, stage, due⟩ := inHand?_eq_some_iff.1 h
    have := early left ends _ stage
    omega
  | asks turn left stage =>
    refine .inl ⟨idle ?_, (attempt_aside _ _).quietly⟩
    rcases stage with ⟨stage, -⟩ | ⟨ends, last, stage, -⟩ <;> simp [stage]
  | @pauses turn left ends outcome last stage failed =>
    refine .inl ⟨idle ?_, Aside.quietly ?_⟩
    · rintro left' ends' answer h
      obtain ⟨-, -, rfl⟩ := Stage.attempting.inj (stage.symm.trans h)
      cases failed
    · unfold afterAttempt
      rw [failed]
      dsimp only
      split
      · exact (goOn_aside rfl).after rfl rfl rfl rfl rfl rfl
      · exact (goOnAt_aside (Clock.after_mod _ _) rfl).after rfl rfl rfl rfl rfl rfl
  | @ends kept turn heeds outcome obtains =>
    cases obtains with
    | refused stage => exact .inl ⟨idle (by simp [stage]), conclude_quietly run _⟩
    | stopped stage => exact .inl ⟨idle (by simp [stage]), conclude_quietly run _⟩
    | interrupted stage => exact .inl ⟨idle (by simp [stage]), conclude_quietly run _⟩
    | exhausted stage => exact .inl ⟨idle (by simp [stage]), conclude_quietly run _⟩
    | @replied left ends outcome stage due final =>
      cases outcome with
      | ok answer =>
        exact .inr ⟨answer, inHand?_eq_some_iff.2 ⟨kept, left, ends, stage, due⟩, turn, rfl⟩
      | error error => exact .inl ⟨idle (by simp [stage]), conclude_quietly run error⟩
  | givenUp given =>
    refine .inl ⟨Option.eq_none_iff_forall_ne_some.2 fun answer h => ?_, (abandon_aside run).quietly⟩
    exact absurd ((inHand?_eq_some_iff.1 h).1.symm.trans given) (by decide)

/-- The end of a cycle with an answer, and what follows from it. -/
theorem answered_faithful (ordered : Orderly config e) (h : Faithful e.members) (run : Run)
    (answer : List Record) :
    let after := (e.resolve answer).2.finish run (.ok (e.resolve answer).1)
    Faithful after.members ∧
      (∃ report, after.results = (run.id, .ok report) :: e.results ∧ report.resolved = true) ∧
      ∃ later, after.members.history =
          later ++ ⟨e.now, .resolved (e.found answer).1⟩ :: e.members.history ∧
        ∀ entry ∈ later, ∀ candidates, entry.what ≠ .resolved candidates := by
  obtain ⟨done, later, hist, unresolved⟩ := conclusion_faithful ordered h run.id answer
  have finished := finish_quietly (e := (e.resolve answer).2) run (.ok (e.resolve answer).1)
  obtain ⟨after, ⟨more, hmore, unresolved'⟩, -⟩ := finished.faithful done
  refine ⟨after, ⟨(e.resolve answer).1, ?_, rfl⟩, more ++ later, ?_, fun entry he => ?_⟩
  · rw [(finish_runs (e.resolve answer).2 run _).2.2.1]
    exact congrArg _ (List.cons.inj (conclusion_results e run.id answer)).2
  · rw [hmore, List.append_assoc]
    exact congrArg _ hist
  · exact (List.mem_append.1 he).elim (unresolved' entry) (unresolved entry)

/-- A cycle that goes on. -/
theorem Faithful.resume (h : Faithful e.members) (reached : Reachable config e) (id : Nat)
    (heeds : Bool) :
    Faithful (e.act (.turn (.resume id) heeds)).members ∧
      (Unanswered e (e.act (.turn (.resume id) heeds)) ∨ ∃ run answer,
        Answers e run answer (.turn (.resume id) heeds) (e.act (.turn (.resume id) heeds))) := by
  rcases reached.underway.turns.resumes id heeds with ⟨run, hrun, rfl, resumes⟩ | ⟨-, heq⟩
  · rcases resumes.quietly_or_answered with ⟨-, q⟩ | ⟨answer, inHand, turn, heq⟩
    · have quiet : Quietly e (e.act (.turn (.resume run.id) heeds)) :=
        .head (.aside (erase_aside rfl)) q
      exact (quiet.faithful h).imp_right .inl
    · have ordered : Orderly config { e with ready := e.ready.erase (.resume run.id) } :=
        reached.orderly.aside (erase_aside rfl)
      obtain ⟨after, outcome, hist⟩ := answered_faithful ordered h run answer
      rw [← heq] at after outcome hist
      exact ⟨after, .inr ⟨run, answer, ⟨heeds, rfl⟩, hrun, turn,
        (inHand?_eq_some_iff.1 inHand).2, outcome, hist⟩⟩
  · rw [heq]
    exact ⟨h, .inl (.of_results (.refl _) rfl)⟩

/-- **A deed leaves the peers tracked as they are listed.** Either no cycle has an answer with it, or
one comes to its end. -/
theorem Faithful.act (h : Faithful e.members) (reached : Reachable config e) (allowed : e.Allows deed) :
    Faithful (e.act deed).members ∧
      (Unanswered e (e.act deed) ∨ ∃ run answer, Answers e run answer deed (e.act deed)) := by
  have ordered := reached.orderly
  have quiet : Quietly e (e.act deed) → Faithful (e.act deed).members ∧
      (Unanswered e (e.act deed) ∨ ∃ run answer, Answers e run answer deed (e.act deed)) := fun q =>
    (q.faithful h).imp_right .inl
  have between : Interlude e.members (e.act deed).members → (e.act deed).results = e.results →
      Faithful (e.act deed).members ∧
        (Unanswered e (e.act deed) ∨ ∃ run answer, Answers e run answer deed (e.act deed)) :=
    fun i results => ⟨h.interlude i, .inl (.of_results i.continues results)⟩
  cases deed with
  | turn job heeds =>
    cases job with
    | arm timer =>
      have armed : Interlude e.members
          (Engine.armTimer { e with ready := e.ready.erase (.arm timer) } timer).members ∧
          (Engine.armTimer { e with ready := e.ready.erase (.arm timer) } timer).results =
            e.results := by
        unfold armTimer
        split
        · exact ⟨.refl ordered.polite, rfl⟩
        · split
          · exact ⟨fire_interlude tell_heeds ordered.polite h.settled timer, rfl⟩
          · exact ⟨.refl ordered.polite, rfl⟩
      exact between armed.1 armed.2
    | fire timer => exact between (fire_interlude tell_heeds ordered.polite h.settled timer) rfl
    | start id => exact quiet (.head (.aside (erase_aside rfl)) (startRun_quietly id))
    | loop => exact quiet ((erase_aside rfl).trans resumeLoop_aside).quietly
    | resume id => exact h.resume reached id heeds
  | wait time =>
    obtain ⟨woken, heq, -⟩ := jump_eq e time
    rw [show e.act (.wait time) = _ from heq]
    exact ⟨h.congr rfl rfl rfl rfl, .inl (.of_results (.of_eq rfl) rfl)⟩
  | fail key => exact between (fail_interlude tell_heeds ordered.polite key) rfl
  | pardon key =>
    have pardoned : (e.act (.pardon key)).members.history = ⟨e.now, .pardoned key⟩ :: e.members.history :=
      pardon_history e key
    have results : (e.act (.pardon key)).results = e.results := by
      obtain ⟨members, woken, heq⟩ := pardon_eq e key
      rw [show e.act (.pardon key) = _ from heq]
    refine ⟨?_, .inl (.of_results (.entry pardoned (by simp)) results)⟩
    show Faithful (e.pardon key).2.members
    unfold Engine.pardon
    dsimp only
    split
    · exact (h.pardon key).congr rfl rfl rfl rfl
    · exact h.pardon key
  | call => exact quiet (ask_quietly trivial)
  | spawn => exact quiet (ask_quietly trivial)
  | cancel => exact quiet (ask_quietly trivial)
  | stop => exact quiet (ask_quietly trivial)
  | release => exact quiet (ask_quietly trivial)
  | serve directory => exact quiet (ask_quietly trivial)

/-- Wherever discovery can be, the peers are tracked as they are listed. -/
theorem Reachable.faithful (h : Reachable config e) : Faithful e.members := by
  refine h.induct (P := fun e => Faithful e.members) (fun directory reactions e₀ h₀ => ?_)
    fun e deed reached allowed ih => (ih.act reached allowed).1
  obtain ⟨-, journal, -, -, -, -, hm⟩ := start_eq h₀
  rw [hm]
  exact ⟨fun _ => .inl rfl, rfl⟩

/-- Either no cycle has an answer with a deed, or one comes to its end. -/
theorem Reachable.answers (h : Reachable config e) (allowed : e.Allows deed) :
    Unanswered e (e.act deed) ∨ ∃ run answer, Answers e run answer deed (e.act deed) :=
  (h.faithful.act h allowed).2

/-! ## Candidates -/

/-- The record is fit to be tracked: it is not that of the local node, and it is ready if that is asked
for. -/
def Fit (config : Config) (r : Record) : Prop :=
  (∀ address, config.localAddress = some address → r.matchesAddress address = false) ∧
    (config.requireReady = true → r.ready = true)

/-- The candidates of an answer are fit. -/
theorem fit_of_candidates {excluded : PeerKey → Bool} {answer : List Record} {key : PeerKey} {r : Record}
    (h : ((Admission.ofConfig config).candidates excluded answer).1.find? key = some r) :
    Fit config r := by
  have hmem := KeyMap.mem_of_mem_ofList (KeyMap.find?_eq_some_iff.1 h)
  simp only [List.mem_filter, List.mem_map] at hmem
  obtain ⟨⟨r', ⟨-, admitted⟩, heq⟩, -⟩ := hmem
  obtain ⟨-, rfl⟩ := Prod.mk.inj heq
  unfold Admission.admits Admission.ofConfig at admitted
  simp only [Bool.and_eq_true, Bool.or_eq_true, Bool.not_eq_true'] at admitted
  refine ⟨fun address ha => ?_, fun required => ?_⟩
  · simpa [ha] using admitted.1
  · simpa [required] using admitted.2

/-- Every cycle on record has taken its candidates from an answer. -/
def Admitted (config : Config) (history : List Entry) : Prop :=
  ∀ entry ∈ history, ∀ candidates, entry.what = .resolved candidates →
    ∃ excluded answer, candidates = ((Admission.ofConfig config).candidates excluded answer).1

theorem Reachable.admitted (h : Reachable config e) : Admitted config e.members.history := by
  refine h.induct (P := fun e => Admitted config e.members.history)
    (fun directory reactions e₀ h₀ => ?_) fun e deed reached allowed ih => ?_
  · obtain ⟨-, journal, -, -, -, -, hm⟩ := start_eq h₀
    rw [hm]
    exact fun _ he => by cases he
  · intro entry he candidates hc
    rcases reached.answers allowed with ⟨⟨later, hist, unresolved⟩, -⟩ | ⟨run, answer, answers⟩
    · rw [hist] at he
      rcases List.mem_append.1 he with he | he
      · exact absurd hc (unresolved entry he candidates)
      · exact ih entry he candidates hc
    · obtain ⟨later, hist, unresolved⟩ := answers.history
      rw [hist] at he
      rcases List.mem_append.1 he with he | he
      · exact absurd hc (unresolved entry he candidates)
      · rcases List.mem_cons.1 he with rfl | he
        · have found := Happening.resolved.inj hc
          rw [← found, Engine.found, reached.orderly.settings]
          exact ⟨_, answer, rfl⟩
        · exact ih entry he candidates hc

/-- Whoever is listed is fit. -/
theorem Admitted.fit {history : List Entry} (h : Admitted config history) {key : PeerKey} {r : Record}
    (listed : listed? key history = some r) : Fit config r := by
  induction history with
  | nil => cases listed
  | cons entry past ih =>
    have before := ih fun x hx => h x (List.mem_cons_of_mem _ hx)
    obtain ⟨time, what⟩ := entry
    cases what with
    | resolved candidates =>
      obtain ⟨excluded, answer, rfl⟩ := h _ List.mem_cons_self candidates rfl
      exact fit_of_candidates listed
    | excluded k =>
      unfold listed? at listed
      dsimp only at listed
      split at listed
      · cases listed
      · exact before listed
    | _ => exact before listed

/-- Whoever is announced is fit. -/
theorem Admitted.announced {history : List Entry} (h : Admitted config history) {time : Nat} {r : Record}
    (announced : (time, some r) ∈ announcements history) : Fit config r := by
  induction history with
  | nil => cases announced
  | cons entry past ih =>
    have past' : Admitted config past := fun x hx => h x (List.mem_cons_of_mem _ hx)
    have one : ∀ key t, (time, some r) ∈ (t, listed? key past) :: announcements past →
        Fit config r := by
      intro key t hm
      rcases List.mem_cons.1 hm with heq | hm
      · exact past'.fit (Prod.mk.inj heq).2.symm
      · exact ih past' hm
    obtain ⟨t, what⟩ := entry
    cases what with
    | tracked key => exact one key t announced
    | reconnected key => exact one key t announced
    | restored key reset => exact one key t announced
    | _ => exact ih past' announced

/-! ## Discovery -/

/-- **Whoever is tracked or announced is so under the record of the latest cycle.** A cycle goes on
record when it comes to its end with an answer, with the candidates that it found in it. Before the
end the tracked peers are the candidates of the latest such cycle, each under its record there, without
those that were excluded since; before the first one there are none. A peer is on record as excluded
just when its failure was answered so. Whether a cycle or a timer announces a peer, the listener hears
the record by which the peer is listed at that time. No peer that is tracked or announced is the local
node, and all are ready if that is asked for. -/
theorem peers_are_as_listed (h : Reachable config e) :
    (e.running = true → ∀ key,
      ((∀ entry ∈ e.members.history, ∀ candidates, entry.what ≠ .resolved candidates) →
        e.members.find? key = none) ∧
      ∀ later time candidates past,
        e.members.history = later ++ ⟨time, .resolved candidates⟩ :: past →
        (∀ entry ∈ later, ∀ candidates, entry.what ≠ .resolved candidates) →
        ((∃ entry ∈ later, entry.what = .excluded key) → e.members.find? key = none) ∧
        ((∀ entry ∈ later, entry.what ≠ .excluded key) →
          (e.members.find? key).map (·.record) = candidates.find? key)) ∧
    (∀ deed, e.Allows deed →
      Unanswered e (e.act deed) ∨ ∃ run answer, Answers e run answer deed (e.act deed)) ∧
    (∀ key, (∃ failures, (e.fail key).1 = .excluded failures) ↔
      ∃ time past, (e.fail key).2.members.history = ⟨time, .excluded key⟩ :: past ∧
        e.members.history <:+ past) ∧
    e.members.told.filterMap Told.announcement? = announcements e.members.history ∧
    (∀ time record, .notice time (.added record) ∈ e.members.told → Fit config record) ∧
    ∀ key peer, e.members.find? key = some peer → Fit config peer.record := by
  have faithful := h.faithful
  have admitted := h.admitted
  refine ⟨fun running key => ?_, fun deed allowed => h.answers allowed,
    fail_excludes_iff tell_heeds h.orderly.polite, faithful.voiced, fun time record heard => ?_,
    fun key peer hp => ?_⟩
  · have running' := h.orderly.open_of_running running
    have settled : e.members.record? key = listed? key e.members.history :=
      (faithful.settled key).resolve_right fun gone => by
        rw [running'] at gone
        cases gone.1
    have untracked : e.members.record? key = none → e.members.find? key = none :=
      Option.map_eq_none_iff.1
    refine ⟨fun none => untracked (settled.trans (listed?_of_unresolved none)), ?_⟩
    intro later time candidates past hist latest
    rw [hist] at settled
    rcases @listed?_append key later past time candidates latest with
      ⟨⟨x, hx, hw⟩, gone⟩ | ⟨kept, listed⟩
    · exact ⟨fun _ => untracked (settled.trans gone), fun none => absurd hw (none x hx)⟩
    · exact ⟨fun ⟨x, hx, hw⟩ => absurd hw (kept x hx), fun _ => settled.trans listed⟩
  · have called : (time, some record) ∈ announcements e.members.history := by
      rw [← faithful.voiced]
      exact List.mem_filterMap.2 ⟨_, heard, rfl⟩
    exact admitted.announced called
  · have tracked : e.members.record? key = some peer.record := by
      rw [Members.record?, hp]
      rfl
    exact admitted.fit ((faithful.settled key).listed tracked)

/-- A cycle has refreshed the record of a healthy peer; when the peer fails and comes back by its timer,
it is announced under the new record. -/
theorem reconnects_as_listed : ∃ e,
    session (Config.standard.set (.requireReady true)) (.fixed ⟨[.plain "a" 0]⟩) []
      [.turn .loop, .turn (.resume 0), .turn (.resume 0), .serve (.fixed ⟨[⟨"a", 0, some "new", true⟩]⟩),
        .call, .turn (.resume 1), .turn (.resume 1), .wait 1000000000, .fail ⟨"a"⟩, .turn (.arm 0),
        .wait 2000000000, .turn (.fire 0)] = some e ∧
    (∃ later time candidates past,
      e.members.history = later ++ ⟨time, .resolved candidates⟩ :: past ∧
      (e.members.find? ⟨"a"⟩).map (·.record) = candidates.find? ⟨"a"⟩ ∧
      candidates.find? ⟨"a"⟩ = some ⟨"a", 0, some "new", true⟩) ∧
    .notice 2000000000 (.added ⟨"a", 0, some "new", true⟩) ∈ e.members.told ∧
    Fit (Config.standard.set (.requireReady true)) ⟨"a", 0, some "new", true⟩ := by
  obtain ⟨e, he, hp⟩ := (Option.any_eq_true _ _).1 (show
    (session (Config.standard.set (.requireReady true)) (.fixed ⟨[.plain "a" 0]⟩) []
      [.turn .loop, .turn (.resume 0), .turn (.resume 0), .serve (.fixed ⟨[⟨"a", 0, some "new", true⟩]⟩),
        .call, .turn (.resume 1), .turn (.resume 1), .wait 1000000000, .fail ⟨"a"⟩, .turn (.arm 0),
        .wait 2000000000, .turn (.fire 0)]).any (fun e => decide (e.running = true ∧
          (e.members.find? ⟨"a"⟩).map (·.record) = some ⟨"a", 0, some "new", true⟩ ∧
          .notice 2000000000 (.added ⟨"a", 0, some "new", true⟩) ∈ e.members.told) &&
          e.members.history.all (fun x => match x.what with
            | .excluded _ => false
            | _ => true)) = true by decide +kernel)
  obtain ⟨hp, spared⟩ := Bool.and_eq_true_iff.1 hp
  obtain ⟨running, tracked, heard⟩ := of_decide_eq_true hp
  obtain ⟨listed, -, -, -, announced, -⟩ := peers_are_as_listed (reachable_of_session (by simp) he)
  obtain ⟨unlisted, latest⟩ := listed running ⟨"a"⟩
  refine ⟨e, he, ?_, heard, announced _ _ heard⟩
  rcases latest_resolved e.members.history with none | ⟨later, time, candidates, past, hist, last⟩
  · rw [unlisted none] at tracked
    cases tracked
  · have kept : ∀ entry ∈ later, entry.what ≠ .excluded ⟨"a"⟩ := by
      intro entry hentry hw
      have := List.all_eq_true.1 spared entry (hist ▸ List.mem_append_left _ hentry)
      rw [hw] at this
      cases this
    have same := (latest later time candidates past hist last).2 kept
    exact ⟨later, time, candidates, past, hist, same, same.symm.trans tracked⟩

end Engine

end Roster

