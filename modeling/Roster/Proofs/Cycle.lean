import Roster.Proofs.Reconcile
import Roster.Proofs.Session

/-!
# Proofs.Cycle — a cycle does exactly what its candidates ask for

* `Uneventful`: what quiet changes leave alone, and the outcomes they may add.
* `cycle_of_results`: a cycle that comes to an end with an answer reconciles, and all else is quiet.
* `Silent`: nothing was told since a given state, and cycles changed nothing. `Silent.leads`: this
  stays so as long as nobody fails and cycles find the same peers.
* `cycle_is_exact`: the notices, the report and the peers of a cycle, and the silence after it.
-/

namespace Roster

open Members Relation

namespace Engine

variable {config : Config} {e e' e'' : Engine}

/-! ## Quiet changes -/

/-- Nothing was told and nobody changed, unless discovery is over. Cycles may have ended without an
answer. -/
structure Uneventful (e e' : Engine) : Prop where
  told : e'.members.told = e.members.told
  reactions : e'.members.reactions = e.members.reactions
  slots : e'.running = true → e.running = true ∧ e'.members.slots = e.members.slots
  results : ∃ more, e'.results = more ++ e.results ∧
    ∀ x ∈ more, ∀ report, x.2 = .ok report → report = .unresolved

theorem Uneventful.of_eq (members : e'.members = e.members) (running : e'.running = e.running)
    (results : e'.results = e.results) : Uneventful e e' :=
  ⟨congrArg _ members, congrArg _ members, fun h => ⟨running ▸ h, congrArg _ members⟩, [], results,
    fun _ hx => by cases hx⟩

theorem Uneventful.trans (h : Uneventful e e') (h' : Uneventful e' e'') : Uneventful e e'' := by
  obtain ⟨more, hr, hmore⟩ := h.results
  obtain ⟨more', hr', hmore'⟩ := h'.results
  refine ⟨h'.told.trans h.told, h'.reactions.trans h.reactions, ?_, more' ++ more,
    by rw [hr', hr, List.append_assoc], ?_⟩
  · intro running
    obtain ⟨running', slots'⟩ := h'.slots running
    obtain ⟨running, slots⟩ := h.slots running'
    exact ⟨running, slots'.trans slots⟩
  · intro x hx
    exact (List.mem_append.1 hx).elim (hmore' x) (hmore x)

theorem Quiet.uneventful (q : Quiet e e') : Uneventful e e' := by
  cases q with
  | aside a => exact .of_eq a.members a.running a.results
  | write remark => exact ⟨rfl, rfl, fun h => ⟨h, rfl⟩, [], rfl, fun _ hx => by cases hx⟩
  | count hf => exact ⟨rfl, rfl, fun h => ⟨h, rfl⟩, [], rfl, fun _ hx => by cases hx⟩
  | fruitless id result h =>
    refine ⟨rfl, rfl, fun h => ⟨h, rfl⟩, [(id, result)], rfl, ?_⟩
    intro x hx report hr
    obtain rfl := List.mem_singleton.1 hx
    exact h report hr
  | close => exact ⟨rfl, rfl, fun h => (by cases h), [], rfl, fun _ hx => by cases hx⟩

theorem Quietly.uneventful (q : Quietly e e') : Uneventful e e' := by
  induction q with
  | refl => exact .of_eq rfl rfl rfl
  | tail _ q ih => exact ih.trans q.uneventful

/-! ## Cycles -/

/-- What a cycle with an answer does to the members. -/
theorem conclusion_members (e : Engine) (id : Nat) (answer : List Record) : ∃ tally,
    (e.conclusion id answer).members = { (reconcile Members.tell (e.found answer).1
      (e.briefed answer).members).2 with tally } := by
  have same : (e.conclusion id answer).members = ((e.briefed answer).counted
      (reconcile Members.tell (e.found answer).1 (e.briefed answer).members).2).members := by
    rw [conclusion, resolve_eq]
  rw [same]
  exact counted_members _ _

/-- What a cycle with an answer reports. -/
theorem conclusion_results (e : Engine) (id : Nat) (answer : List Record) :
    (e.conclusion id answer).results = (id, .ok ⟨true, (e.found answer).1.size,
      (reconcile Members.tell (e.found answer).1 (e.briefed answer).members).1,
      (e.found answer).2⟩) :: e.results := by
  obtain ⟨journal, hb⟩ := briefed_eq e answer
  have hresults : (e.briefed answer).results = e.results := by rw [hb]
  rw [conclusion, resolve_eq, ← hresults]
  rfl

/-- A cycle with an answer is on record. -/
theorem Orderly.conclusion_history (h : Orderly config e) (id : Nat) (answer : List Record) :
    ∃ extra, (e.conclusion id answer).members.history =
      extra ++ ⟨e.now, .resolved (e.found answer).1⟩ :: e.members.history := by
  obtain ⟨extra, hist⟩ := reconcile_history tell_tells (h.briefed answer).sound
    (h.briefed answer).polite (briefed_own e answer)
  obtain ⟨journal, hb⟩ := briefed_eq e answer
  obtain ⟨tally, hm⟩ := conclusion_members e id answer
  refine ⟨extra, ?_⟩
  rw [hm]
  dsimp only
  rw [hist, hb]
  rfl

/-- A deed is the work of a cycle or of the poll loop, or no cycle ends with it. -/
theorem act_works_or_results (e : Engine) (deed : Deed) :
    Works e (e.act deed) ∨ (e.act deed).results = e.results := by
  cases deed with
  | turn job heeds =>
    cases hjob : job.timer? with
    | none => exact .inl (turn_works hjob)
    | some timer =>
      refine .inr ?_
      cases job with
      | arm id =>
        show (Engine.armTimer { e with ready := e.ready.erase (.arm id) } id).results = e.results
        unfold Engine.armTimer
        split
        · rfl
        · split <;> rfl
      | fire id => rfl
      | start id => cases hjob
      | resume id => cases hjob
      | loop => cases hjob
  | wait time =>
    obtain ⟨ready, hjump, -⟩ := jump_eq e time
    refine .inr ?_
    show (e.jump time).results = e.results
    rw [hjump]
  | fail key => exact .inr rfl
  | pardon key =>
    refine .inr ?_
    show (e.pardon key).2.results = e.results
    unfold Engine.pardon
    dsimp only
    split <;> rfl
  | call => exact .inl (.quiet (ask_quietly trivial))
  | spawn => exact .inl (.quiet (ask_quietly trivial))
  | cancel => exact .inl (.quiet (ask_quietly trivial))
  | stop => exact .inl (.quiet (ask_quietly trivial))
  | release => exact .inl (.quiet (ask_quietly trivial))
  | serve directory => exact .inl (.quiet (ask_quietly trivial))

/-- A cycle that comes to an end with an answer reconciles, and all else is quiet. -/
theorem cycle_of_results {deed : Deed} {id : Nat} {report : Report}
    (ends : (e.act deed).results = (id, .ok report) :: e.results)
    (resolved : report.resolved = true) : ∃ e₁ answer, Aside e e₁ ∧
      Quietly (e₁.conclusion id answer) (e.act deed) ∧
      report = ⟨true, (e₁.found answer).1.size,
        (reconcile Members.tell (e₁.found answer).1 (e₁.briefed answer).members).1,
        (e₁.found answer).2⟩ := by
  rcases act_works_or_results e deed with w | same
  · generalize e.act deed = after at ends w
    cases w with
    | quiet q =>
      obtain ⟨more, hr, hmore⟩ := q.uneventful.results
      have both : more ++ e.results = [(id, .ok report)] ++ e.results := hr.symm.trans ends
      have hone := List.append_cancel_right both
      have fruitless := hmore _ (hone ▸ List.mem_singleton_self _) report rfl
      rw [fruitless] at resolved
      cases resolved
    | @answer e₁ _ before id' answer after =>
      obtain ⟨more, hr, -⟩ := after.uneventful.results
      rw [conclusion_results, before.results, ends] at hr
      have hnil : more = [] := by
        have hlength := congrArg List.length hr
        simp only [List.length_cons, List.length_append] at hlength
        exact List.eq_nil_of_length_eq_zero (by omega)
      rw [hnil] at hr
      obtain ⟨hx, -⟩ := List.cons.inj hr
      obtain ⟨rfl, hreport⟩ := Prod.ext_iff.1 hx
      exact ⟨e₁, answer, before, after, Except.ok.inj hreport⟩
  · rw [same] at ends
    exact absurd ends.symm (List.cons_ne_self _ _)

/-! ## Silence -/

/-- Every cycle among the entries found peers with these keys. -/
def Repeats (keys : List PeerKey) (entries : List Entry) : Prop :=
  ∀ entry ∈ entries, ∀ candidates, entry.what = .resolved candidates → candidates.keys = keys

/-- Since `e₀` nothing was told and no cycle changed anything; the peers have these keys, and nobody
failed. -/
structure Silent (keys : List PeerKey) (e₀ e : Engine) : Prop where
  steady : Steady keys e.members
  told : e.members.told = e₀.members.told
  results : ∃ more, e.results = more ++ e₀.results ∧
    ∀ x ∈ more, ∀ report, x.2 = .ok report → report.isNoop = true

namespace Silent

variable {keys : List PeerKey} {e₀ : Engine}

theorem quietly (h : Silent keys e₀ e) (ordered : Orderly config e) (q : Quietly e e') :
    Silent keys e₀ e' := by
  have calm := q.uneventful
  have ordered' := ordered.quietly q
  obtain ⟨more, hr, hmore⟩ := calm.results
  obtain ⟨before, hb, hbefore⟩ := h.results
  refine ⟨⟨calm.reactions.trans h.steady.plain, ?_, ?_⟩, calm.told.trans h.told, more ++ before, by
    rw [hr, hb, List.append_assoc], ?_⟩
  · intro open'
    have running : e'.running = true := by
      have hclosed := ordered'.closed
      rw [open'] at hclosed
      simpa using hclosed.symm
    obtain ⟨running', slots⟩ := calm.slots running
    rw [slots]
    exact h.steady.keys (ordered.open_of_running running')
  · intro key slot hs
    cases hrunning : e'.running with
    | true =>
      rw [(calm.slots hrunning).2] at hs
      exact h.steady.healthy key slot hs
    | false =>
      rw [ordered'.sound.closed (ordered'.closed_of_stopped hrunning) key] at hs
      cases hs
  · intro x hx report hx'
    rcases List.mem_append.1 hx with hx | hx
    · rw [hmore x hx report hx']
      rfl
    · exact hbefore x hx report hx'

theorem conclusion (h : Silent keys e₀ e) (ordered : Orderly config e) (id : Nat)
    (answer : List Record) (same : (e.found answer).1.keys = keys) :
    Silent keys e₀ (e.conclusion id answer) := by
  obtain ⟨journal, hb⟩ := briefed_eq e answer
  have steady : Steady keys (e.briefed answer).members := by
    rw [hb]
    exact h.steady.congr rfl rfl rfl
  have told : (e.briefed answer).members.told = e.members.told := by rw [hb]
  obtain ⟨changes, told', steady'⟩ :=
    steady.reconcile (ordered.briefed answer).sound (briefed_own e answer) same
  obtain ⟨tally, hm⟩ := conclusion_members e id answer
  obtain ⟨before, hbefore, noop⟩ := h.results
  have ends := conclusion_results e id answer
  rw [changes, hbefore, ← List.cons_append] at ends
  refine ⟨?_, ?_, _, ends, ?_⟩
  · exact steady'.congr (by rw [hm]) (by rw [hm]) (by rw [hm])
  · rw [hm]
    dsimp only
    rw [told', told, h.told]
  · intro x hx report hr
    rcases List.mem_cons.1 hx with rfl | hx
    · obtain rfl := Except.ok.inj hr
      rfl
    · exact noop x hx report hr

theorem works (h : Silent keys e₀ e) (ordered : Orderly config e) (w : Works e e')
    (repeats : ∀ extra, e'.members.history = extra ++ e.members.history → Repeats keys extra) :
    Silent keys e₀ e' := by
  cases w with
  | quiet q => exact h.quietly ordered q
  | @answer e₁ _ before id answer after =>
    have h₁ := h.quietly ordered before.quietly
    have ordered₁ := ordered.aside before
    have concluded := ordered₁.conclusion id answer
    obtain ⟨extra, hist⟩ := ordered₁.conclusion_history id answer
    obtain ⟨more, hmore⟩ := after.moves.history concluded.sound
    rw [hist, before.members] at hmore
    have all : Repeats keys (more ++ extra ++ [⟨e₁.now, .resolved (e₁.found answer).1⟩]) :=
      repeats _ (by rw [hmore]; simp)
    have same := all _ (List.mem_append_right _ (List.mem_singleton_self _)) _ rfl
    exact (h₁.conclusion ordered₁ id answer same).quietly concluded after

/-- Nothing has changed that matters here. -/
theorem congr (h : Silent keys e₀ e) (slots : e'.members.slots = e.members.slots)
    (closed : e'.members.closed = e.members.closed)
    (reactions : e'.members.reactions = e.members.reactions)
    (told : e'.members.told = e.members.told) (results : e'.results = e.results) :
    Silent keys e₀ e' :=
  ⟨h.steady.congr reactions closed slots, told.trans h.told, results ▸ h.results⟩

/-- A deed other than a failure breaks no silence. -/
theorem act (h : Silent keys e₀ e) (ordered : Orderly config e) {deed : Deed}
    (nobody : ∀ key, deed ≠ .fail key)
    (repeats : ∀ extra, (e.act deed).members.history = extra ++ e.members.history →
      Repeats keys extra) : Silent keys e₀ (e.act deed) := by
  have idle := h.steady.timers ordered.sound
  have fires : ∀ job id, Engine.fireTimer { e with ready := e.ready.erase job } id =
      { e with ready := e.ready.erase job } := fun job id => by
    simp [Engine.fireTimer, Engine.onMembers, fire, idle]
  cases deed with
  | turn job heeds =>
    cases hjob : job.timer? with
    | none => exact h.works ordered (turn_works hjob) repeats
    | some timer =>
      cases job with
      | arm id =>
        show Silent keys e₀ (Engine.armTimer { e with ready := e.ready.erase (.arm id) } id)
        unfold Engine.armTimer
        rw [idle]
        exact h.congr rfl rfl rfl rfl rfl
      | fire id =>
        show Silent keys e₀ (Engine.fireTimer { e with ready := e.ready.erase (.fire id) } id)
        rw [fires]
        exact h.congr rfl rfl rfl rfl rfl
      | start id => cases hjob
      | resume id => cases hjob
      | loop => cases hjob
  | wait time =>
    obtain ⟨ready, hjump, -⟩ := jump_eq e time
    show Silent keys e₀ (e.jump time)
    rw [hjump]
    exact h.congr rfl rfl rfl rfl rfl
  | fail key => exact absurd rfl (nobody key)
  | pardon key =>
    show Silent keys e₀ (e.pardon key).2
    unfold Engine.pardon
    dsimp only
    split <;> exact h.congr rfl rfl rfl rfl rfl
  | call => exact h.works ordered (.quiet (ask_quietly trivial)) repeats
  | spawn => exact h.works ordered (.quiet (ask_quietly trivial)) repeats
  | cancel => exact h.works ordered (.quiet (ask_quietly trivial)) repeats
  | stop => exact h.works ordered (.quiet (ask_quietly trivial)) repeats
  | release => exact h.works ordered (.quiet (ask_quietly trivial)) repeats
  | serve directory => exact h.works ordered (.quiet (ask_quietly trivial)) repeats

/-- **Silence lasts** as long as nobody is reported failed and cycles find the same peers. -/
theorem leads (h : Silent keys e₀ e) (ordered : Orderly config e) {deeds : List Deed}
    (l : Leads e deeds e') (nobody : ∀ key, Deed.fail key ∉ deeds) {later : List Entry}
    (hist : e'.members.history = later ++ e.members.history) (repeats : Repeats keys later) :
    Silent keys e₀ e' := by
  induction l generalizing later with
  | start => exact h
  | @next deeds e' before deed allowed ih =>
    obtain ⟨moves, ordered'⟩ := ordered.leads before
    obtain ⟨more, ordered''⟩ := ordered'.act allowed
    obtain ⟨past, hpast⟩ := moves.history ordered.sound
    obtain ⟨extra, hextra⟩ := more.history ordered'.sound
    have both : later ++ e.members.history = (extra ++ past) ++ e.members.history := by
      rw [List.append_assoc, ← hpast, ← hextra, hist]
    have split := List.append_cancel_right both
    have silent := ih (fun key hk => nobody key (List.mem_cons_of_mem _ hk)) hpast
      fun entry he => repeats entry (split ▸ List.mem_append_right _ he)
    refine silent.act ordered' (fun key hk => nobody key (hk ▸ List.mem_cons_self)) ?_
    intro extra' h'
    obtain rfl := List.append_cancel_right (hextra.symm.trans h')
    exact fun entry he => repeats entry (split ▸ List.mem_append_left _ he)

end Silent

/-! ## Discovery -/

/-- What there is to do ascends. -/
theorem changes_ascend (m : Members) (candidates : KeyMap Record) :
    (m.unlisted candidates).Pairwise (· < ·) ∧
      ((m.returning candidates).map (·.1)).Pairwise (· < ·) ∧
      ((m.newcomers candidates).map (·.1)).Pairwise (· < ·) := by
  have part : ∀ p : PeerKey × Record → Bool,
      ((candidates.entries.filter p).map (·.1)).Pairwise (· < ·) := fun p =>
    candidates.keys_pairwise.sublist (List.filter_sublist.map _)
  exact ⟨m.slots.keys_pairwise.filter _, part _, part _⟩

/-- A cycle with an answer does exactly what the candidates ask for. -/
theorem Orderly.conclusion_exact (ordered : Orderly config e) (running : e.running = true)
    (plain : e.members.reactions = []) (id : Nat) (answer : List Record) :
    (reconcile Members.tell (e.found answer).1 (e.briefed answer).members).1 =
      ⟨(e.members.newcomers (e.found answer).1).map (·.1), e.members.unlisted (e.found answer).1,
        (e.members.returning (e.found answer).1).map (·.1)⟩ ∧
    (e.conclusion id answer).members.told =
      ((e.members.difference (e.found answer).1).map (.notice e.now)).reverse ++ e.members.told ∧
    Steady (e.found answer).1.keys (e.conclusion id answer).members ∧
    ∀ entry ∈ (e.found answer).1.entries,
      Listed e.members entry ((e.conclusion id answer).members.slots.find? entry.1) := by
  have sound := (ordered.briefed answer).sound
  have own := briefed_own e answer
  obtain ⟨tally, hm⟩ := conclusion_members e id answer
  rw [hm]
  dsimp only
  obtain ⟨journal, hb⟩ := briefed_eq e answer
  have hbm : (e.briefed answer).members = { e.members with journal } := by rw [hb]
  generalize (e.briefed answer).members = members at sound own hbm ⊢
  subst hbm
  have open' := ordered.open_of_running running
  obtain ⟨changes, heard, -, listed⟩ := reconcile_exact sound plain open' own
  have steady := reconcile_steady sound plain open' own
  have same : { e.members with journal }.slots = e.members.slots := rfl
  obtain ⟨gone, back, fresh, all⟩ := todo_congr same (e.found answer).1
  have told := heard.told
  rw [gone, back, fresh] at changes
  rw [all] at told
  generalize reconcile Members.tell (e.found answer).1 { e.members with journal } = done at *
  exact ⟨changes, told, steady.congr rfl rfl rfl, listed⟩

/-- **A cycle does exactly what its candidates ask for, and then there is silence.** Before the end
and with a listener that does not answer, a cycle that ends with an answer has taken some candidates
from it. The listener hears of the healthy peers that are not among them, then of the failed peers
that are, then of the new ones, each ascending, and the report says the same. Afterwards the tracked
peers are the candidates, nobody is failed, no timer is armed, and a healthy peer that stays counts
as connected as before. From then on, as long as nobody is reported failed and every cycle finds the
same keys, the listener hears nothing and no cycle changes anything. -/
theorem cycle_is_exact {deed : Deed} {id : Nat} {report : Report} (h : Reachable config e)
    (running : e.running = true) (plain : e.members.reactions = []) (allowed : e.Allows deed)
    (ends : (e.act deed).results = (id, .ok report) :: e.results)
    (resolved : report.resolved = true) : ∃ candidates extra,
    (∃ answer, e.found answer = (candidates, report.partition)) ∧
    (e.act deed).members.history =
      extra ++ ⟨e.now, .resolved candidates⟩ :: e.members.history ∧
    (e.act deed).members.told =
      ((e.members.difference candidates).map (.notice e.now)).reverse ++ e.members.told ∧
    report.changes = ⟨(e.members.newcomers candidates).map (·.1), e.members.unlisted candidates,
      (e.members.returning candidates).map (·.1)⟩ ∧
    (report.changes.removed.Pairwise (· < ·) ∧ report.changes.restored.Pairwise (· < ·) ∧
      report.changes.added.Pairwise (· < ·)) ∧
    report.candidates = candidates.size ∧
    ((e.act deed).running = true →
      (e.act deed).members.slots.keys = candidates.keys ∧
      (∀ key peer, (e.act deed).members.find? key = some peer →
        peer.failed = false ∧ candidates.find? key = some peer.record ∧
        ∀ old, e.members.find? key = some old → old.failed = false →
          peer.connectTime = old.connectTime) ∧
      (e.act deed).members.timers = []) ∧
    ∀ deeds e', Leads (e.act deed) deeds e' → (∀ key, Deed.fail key ∉ deeds) →
      ∀ later, e'.members.history = later ++ (e.act deed).members.history →
        Repeats candidates.keys later →
        e'.members.told = (e.act deed).members.told ∧
        ∃ more, e'.results = more ++ (e.act deed).results ∧
          ∀ x ∈ more, ∀ report', x.2 = .ok report' → report'.isNoop = true := by
  have ordered := h.orderly
  obtain ⟨-, ordered'⟩ := ordered.act allowed
  obtain ⟨e₁, answer, before, after, rfl⟩ := cycle_of_results ends resolved
  have ordered₁ := ordered.aside before
  have concluded := ordered₁.conclusion id answer
  obtain ⟨changes, told, steady, listed⟩ :=
    ordered₁.conclusion_exact (before.running.trans running) (before.members ▸ plain) id answer
  obtain ⟨extra, hist⟩ := ordered₁.conclusion_history id answer
  obtain ⟨more, hmore⟩ := after.moves.history concluded.sound
  have quiet : Silent (e₁.found answer).1.keys (e₁.conclusion id answer) (e.act deed) :=
    Silent.quietly ⟨steady, rfl, [], rfl, fun _ hx => by cases hx⟩ concluded after
  have silent : Silent (e₁.found answer).1.keys (e.act deed) (e.act deed) :=
    ⟨quiet.steady, rfl, [], rfl, fun _ hx => by cases hx⟩
  have found : e.found answer = e₁.found answer := by
    simp only [Engine.found, before.config, before.members]
  have hnow : e₁.now = e.now := congrArg Members.now before.members
  rw [before.members] at changes told listed hist
  rw [hnow] at told hist
  generalize hc : (e₁.found answer).1 = candidates at *
  have keys : (e.act deed).running = true → (e.act deed).members.slots.keys = candidates.keys :=
    fun running' => quiet.steady.keys (ordered'.open_of_running running')
  refine ⟨candidates, more ++ extra, ⟨answer, ?_⟩, ?_, quiet.told.trans told, changes, ?_, rfl,
    fun running' => ⟨keys running', ?_, quiet.steady.timers ordered'.sound⟩,
    ?_⟩
  · rw [found, ← hc]
  · rw [hmore, hist, List.append_assoc]
  · obtain ⟨gone, back, fresh⟩ := changes_ascend e.members candidates
    rw [changes]
    exact ⟨gone, back, fresh⟩
  · intro key peer hpeer
    rw [ordered'.sound.find?_eq] at hpeer
    obtain ⟨slot, hs, rfl⟩ := Option.map_eq_some_iff.1 hpeer
    have tracked : key ∈ candidates.keys := by
      rw [← keys running', KeyMap.mem_keys, KeyMap.contains]
      exact Option.isSome_iff_exists.2 ⟨slot, hs⟩
    obtain ⟨record, hrecord⟩ := Option.isSome_iff_exists.1 (KeyMap.mem_keys.1 tracked)
    obtain ⟨slot', hs', healthy, rfl, connected⟩ := listed _ (KeyMap.find?_eq_some_iff.1 hrecord)
    rw [(after.uneventful.slots running').2, hs'] at hs
    obtain rfl := Option.some.inj hs
    refine ⟨healthy, hrecord, ?_⟩
    intro old hold hf
    rw [ordered.sound.find?_eq] at hold
    obtain ⟨before', hbefore, rfl⟩ := Option.map_eq_some_iff.1 hold
    exact connected before' hbefore hf
  · intro deeds e' l nobody later hlater repeats
    obtain ⟨-, htold, hresults⟩ := silent.leads ordered' l nobody hlater repeats
    exact ⟨htold, hresults⟩

/-- Of two peers one has failed and the other is not listed any more when a third one is. -/
theorem cycle_after_change : ∃ e,
    session .standard (.fixed ⟨[.plain "b" 0, .plain "a" 0]⟩) []
      [.turn .loop, .turn (.resume 0), .turn (.resume 0), .fail ⟨"a"⟩,
        .serve (.fixed ⟨[.plain "c" 0, .plain "a" 0]⟩), .call, .turn (.resume 1)] = some e ∧
    (e.act (.turn (.resume 1))).results =
      (1, .ok ⟨true, 2, ⟨[⟨"c"⟩], [⟨"b"⟩], [⟨"a"⟩]⟩, .disabled⟩) :: e.results ∧
    ∃ candidates,
      (e.act (.turn (.resume 1))).members.told =
        ((e.members.difference candidates).map (.notice e.now)).reverse ++ e.members.told ∧
      ⟨[⟨"c"⟩], [⟨"b"⟩], [⟨"a"⟩]⟩ = Changes.mk ((e.members.newcomers candidates).map (·.1))
        (e.members.unlisted candidates) ((e.members.returning candidates).map (·.1)) ∧
      candidates.size = 2 := by
  obtain ⟨e, he, hp⟩ := (Option.any_eq_true _ _).1 (show
    (session .standard (.fixed ⟨[.plain "b" 0, .plain "a" 0]⟩) []
      [.turn .loop, .turn (.resume 0), .turn (.resume 0), .fail ⟨"a"⟩,
        .serve (.fixed ⟨[.plain "c" 0, .plain "a" 0]⟩), .call, .turn (.resume 1)]).any (fun e =>
          e.running && e.members.reactions.isEmpty && decide (e.Allows (.turn (.resume 1))) &&
            decide ((e.act (.turn (.resume 1))).results =
              (1, .ok ⟨true, 2, ⟨[⟨"c"⟩], [⟨"b"⟩], [⟨"a"⟩]⟩, .disabled⟩) :: e.results)) = true
      by decide +kernel)
  simp only [Bool.and_eq_true, List.isEmpty_iff, decide_eq_true_eq] at hp
  obtain ⟨⟨⟨running, plain⟩, allowed⟩, ends⟩ := hp
  obtain ⟨candidates, extra, -, -, told, changes, -, size, -⟩ :=
    cycle_is_exact (reachable_of_session (by simp) he) running plain allowed ends rfl
  exact ⟨e, he, ends, candidates, told, changes, size.symm⟩

end Engine

end Roster
