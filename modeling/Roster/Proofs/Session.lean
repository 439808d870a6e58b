import Roster.Proofs.Orderly

/-!
# Proofs.Session — what every session keeps

* `Orderly.act`: a deed is made of moves and leaves everything in order.
* `Orderly.leads`, `Reachable.orderly`: so is every session, wherever it began.
* `Reachable.keeps`: what holds at the start and survives every move holds wherever discovery can be.
* `advance_leads`: the driver that takes the first job and else jumps to the next alarm is a session.
-/

namespace Roster

open Members Relation

namespace Engine

variable {config : Config} {e e' : Engine}

/-! ## Deeds -/

theorem Quiet.moves (q : Quiet e e') : Moves e.members e'.members := by
  cases q with
  | aside a => exact a.members ▸ .refl
  | write remark => exact .single (.work (steps_write _ _ _))
  | count hf => exact .single (.work (.single (.count hf)))
  | fruitless id result h => exact .refl
  | close => exact .single .close

theorem Quietly.moves (q : Quietly e e') : Moves e.members e'.members := by
  induction q with
  | refl => exact .refl
  | tail _ q ih => exact ih.trans q.moves

/-- Once the members are reconciled, a cycle with an answer only counts. -/
theorem conclusion_counts (e : Engine) (id : Nat) (answer : List Record) :
    Steps ⟨[], (reconcile Members.tell (e.found answer).1 (e.briefed answer).members).2⟩
      ⟨[], (e.conclusion id answer).members⟩ := by
  rw [Engine.conclusion, resolve_eq]
  exact .tail (.single (.count .cycle)) (.count (.resolved _))

theorem Orderly.conclusion_moves (h : Orderly config e) (id : Nat) (answer : List Record) :
    Moves e.members (e.conclusion id answer).members := by
  have briefed : Moves e.members (e.briefed answer).members := Quietly.moves (foldl_write_quietly _)
  exact briefed.tail (.work ((h.reconcile_briefed answer).trans (conclusion_counts e id answer)))

theorem Orderly.works (h : Orderly config e) (w : Works e e') :
    Moves e.members e'.members ∧ Orderly config e' := by
  cases w with
  | quiet q => exact ⟨q.moves, h.quietly q⟩
  | answer before id answer after =>
    have h₁ := h.aside before
    have moves := (h₁.conclusion_moves id answer).trans after.moves
    rw [before.members] at moves
    exact ⟨moves, (h₁.conclusion id answer).quietly after⟩

theorem Orderly.pardon (h : Orderly config e) (key : PeerKey) :
    Moves e.members (e.pardon key).2.members ∧ Orderly config (e.pardon key).2 := by
  have move : Move e.members (e.members.pardon key).2 := .pardon key
  have lifted : (e.onMembers (·.pardon key)).2 = { e with members := (e.members.pardon key).2 } := by
    simp [Engine.onMembers, Members.pardon, note]
  have h' : Orderly config (e.onMembers (·.pardon key)).2 := by
    rw [lifted]
    exact ⟨h.settings, h.sound.move move, h.polite, h.policy, h.delay, h.closed, h.ticks, h.due,
      h.set, h.fires, h.rings, h.jobs, h.alarms, h.ahead⟩
  have moves : Moves e.members (e.onMembers (·.pardon key)).2.members := .single move
  unfold Engine.pardon
  dsimp only
  split
  · exact ⟨moves.tail (.work (steps_write _ _ _)), h'.write _⟩
  · exact ⟨moves, h'⟩

/-- **A deed is made of moves and leaves everything in order.** -/
theorem Orderly.act (h : Orderly config e) {deed : Deed} (allowed : e.Allows deed) :
    Moves e.members (e.act deed).members ∧ Orderly config (e.act deed) := by
  cases deed with
  | turn job heeds =>
    cases hjob : job.timer? with
    | none => exact h.works (turn_works hjob)
    | some timer =>
      cases job with
      | arm id =>
        obtain ⟨st, h'⟩ := h.armTimer id
        exact ⟨.single (.work st), h'⟩
      | fire id =>
        have due : ∀ t ∈ e.members.timers, t.id = id → t.due = e.now := fun t ht hid =>
          h.fires t ht (hid ▸ allowed)
        have hid : (Job.fire id).timer? = some id := rfl
        obtain ⟨st, h'⟩ := h.fireTimer hid due
        exact ⟨.single (.work st), h'⟩
      | start id => cases hjob
      | resume id => cases hjob
      | loop => cases hjob
  | wait time =>
    obtain ⟨move, h'⟩ := h.wait allowed
    exact ⟨.single move, h'⟩
  | fail key =>
    have st := fail_steps tell_tells [] h.polite key
    exact ⟨.single (.work st), h.onMembers st⟩
  | pardon key => exact h.pardon key
  | call => exact h.works (.quiet (ask_quietly trivial))
  | spawn => exact h.works (.quiet (ask_quietly trivial))
  | cancel => exact h.works (.quiet (ask_quietly trivial))
  | stop => exact h.works (.quiet (ask_quietly trivial))
  | release => exact h.works (.quiet (ask_quietly trivial))
  | serve directory => exact h.works (.quiet (ask_quietly trivial))

/-! ## Sessions -/

theorem Orderly.leads (h : Orderly config e) {deeds : List Deed} (l : Leads e deeds e') :
    Moves e.members e'.members ∧ Orderly config e' := by
  induction l with
  | start => exact ⟨.refl, h⟩
  | next before deed allowed ih =>
    obtain ⟨moves, h'⟩ := ih
    obtain ⟨more, h''⟩ := h'.act allowed
    exact ⟨moves.trans more, h''⟩

/-- Discovery starts with valid settings and nobody tracked. -/
theorem start_eq {directory : Directory} {reactions : List Reaction}
    (h : start config directory reactions = .ok e) : config.validate = .ok () ∧
      ∃ journal, e.config = config ∧ e.running = true ∧ e.ready = [.loop] ∧ e.alarms = [] ∧
        e.members = { Members.initial config.policy config.initialReconnectDelay reactions with
          journal } := by
  unfold start at h
  split at h
  · cases h
  · next hv =>
    split at h
    · cases h
    · obtain rfl := Except.ok.inj h
      exact ⟨hv, _, rfl, rfl, rfl, rfl, rfl⟩

theorem start_orderly {directory : Directory} {reactions : List Reaction}
    (hr : ∀ r ∈ reactions, r.OnlyReports) (h : start config directory reactions = .ok e) :
    Moves (.initial config.policy config.initialReconnectDelay reactions) e.members ∧
      Orderly config e := by
  obtain ⟨-, journal, hconfig, hrunning, hready, halarms, hmembers⟩ := start_eq h
  have st : Steps ⟨[], .initial config.policy config.initialReconnectDelay reactions⟩
      ⟨[], e.members⟩ := by
    rw [hmembers]
    exact .single (.aside journal reactions fun _ => id)
  refine ⟨.single (.work st), hconfig, (Sound.initial _ _ _).steps st, st.polite hr, ?_, ?_, ?_, ?_,
    ?_, ?_, ?_, ?_, ?_, ?_, ?_⟩
  · rw [hmembers]; rfl
  · rw [hmembers]; rfl
  · rw [hmembers, hrunning]; rfl
  · rw [now, hmembers]; rfl
  · rw [hmembers]; exact fun t ht => by cases ht
  · rw [hmembers]; exact fun t ht => by cases ht
  · rw [hmembers]; exact fun t ht => by cases ht
  · rw [hmembers]; exact fun t ht => by cases ht
  · rw [hready]
    intro job hjob id hid
    obtain rfl := List.mem_singleton.1 hjob
    cases hid
  · rw [halarms]; exact fun a ha => by cases ha
  · rw [halarms]; exact fun a ha => by cases ha

/-- **Wherever discovery can be, everything is in order.** -/
theorem Reachable.orderly (h : Reachable config e) : Orderly config e := by
  obtain ⟨directory, reactions, e₀, deeds, hr, h₀, l⟩ := h
  obtain ⟨-, ordered⟩ := start_orderly hr h₀
  exact (ordered.leads l).2

/-- **What holds at the start and survives every move** holds wherever discovery can be. -/
theorem Reachable.keeps (h : Reachable config e) {P : Situation → Prop} (lasting : Lasting P)
    (initial : ∀ reactions,
      P ⟨[], .initial config.policy config.initialReconnectDelay reactions⟩) :
    P ⟨[], e.members⟩ := by
  obtain ⟨directory, reactions, e₀, deeds, hr, h₀, l⟩ := h
  obtain ⟨moves, ordered⟩ := start_orderly hr h₀
  obtain ⟨more, -⟩ := ordered.leads l
  exact lasting.moves (Sound.initial _ _ _) (initial reactions) (moves.trans more)

theorem Reachable.valid (h : Reachable config e) : config.validate = .ok () := by
  obtain ⟨directory, reactions, e₀, deeds, hr, h₀, l⟩ := h
  exact (start_eq h₀).1

/-! ## Drivers -/

/-- Taking the first job is a deed. -/
theorem turnOver_eq {job : Job} {rest : List Job} (h : e.ready = job :: rest) :
    job ∈ e.ready ∧ e.turnOver = e.act (.turn job) := by
  refine ⟨h ▸ List.mem_cons_self, ?_⟩
  show turnOver e = Engine.step { e with ready := e.ready.erase job } job
  simp [turnOver, h]

/-- So is moving up to the next alarm, once no job can go on. -/
theorem Orderly.nextDue_allowed (h : Orderly config e) (idle : e.ready = []) {time : Nat}
    (next : e.nextDue? = some time) : e.Allows (.wait time) ∧ ∃ a ∈ e.alarms, a.due = time := by
  obtain ⟨hmem, hmin⟩ := List.min?_eq_some_iff.1 next
  obtain ⟨a, ha, rfl⟩ := List.mem_map.1 hmem
  exact ⟨⟨idle, (h.ahead a ha).1, (h.ahead a ha).2, fun b hb => hmin _ (List.mem_map.2 ⟨b, hb, rfl⟩)⟩,
    a, ha, rfl⟩

/-- Taking the first job, or else moving up to the next alarm, is a session. -/
theorem Orderly.advance_leads (h : Orderly config e) (done : Engine → Bool) (limit : Nat) :
    ∃ deeds, Leads e deeds (e.advance done limit) := by
  induction limit generalizing e with
  | zero => exact ⟨[], .start⟩
  | succ limit ih =>
    have follow : ∀ deed, e.Allows deed →
        ∃ deeds, Leads e deeds ((e.act deed).advance done limit) := fun deed allowed => by
      obtain ⟨deeds, l⟩ := ih (h.act allowed).2
      exact ⟨_, (Leads.start.next deed allowed).trans l⟩
    rw [advance]
    split
    · next hempty =>
      split
      · exact ⟨[], .start⟩
      · split
        · next time htime =>
          exact follow (.wait time) (h.nextDue_allowed (by simpa using hempty) htime).1
        · exact ⟨[], .start⟩
    · next hready =>
      cases hr : e.ready with
      | nil => simp [hr] at hready
      | cons job rest =>
        obtain ⟨allowed, hturn⟩ := turnOver_eq hr
        rw [hturn]
        exact follow (.turn job) allowed

end Engine

end Roster
