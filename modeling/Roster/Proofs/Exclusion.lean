import Roster.Proofs.Counters
import Roster.Proofs.Cycle
import Roster.Proofs.Newcomers
import Roster.Proofs.Timers

/-!
# Proofs.Exclusion — an excluded peer stays out until it is pardoned, and then comes back

* `barred`: whether a peer is excluded, going by the record. `Exclusions.lasting`: the record is right,
  and nobody was ever tracked while excluded.
* `untracked_lasts`: nothing becomes of a peer that nobody tracks. `shut_out`, `unlisted_stays_out`: so
  it is after an exclusion, and after a pardon as long as no cycle lists the peer.
* `Members.pardons`: how often the peer was pardoned. `Orderly.leads_pardons`: only by somebody who
  asked for it.
* `Welcomed`: the peer is announced as a new one. `Orderly.conclusion_welcomes`: by a cycle that lists
  it.
* `excluded_until_pardoned`: all of it. `not_welcomed_once_stopped`: once discovery was stopped, a cycle
  that lists the peer does not announce it.
-/

namespace Roster

open Members Relation

/-! ## The record of exclusions -/

/-- Whether the peer is excluded, going by the record. -/
def barred (key : PeerKey) : List Entry → Bool
  | [] => false
  | e :: past =>
    match e.what with
    | .excluded k => k == key || barred key past
    | .pardoned k => k != key && barred key past
    | _ => barred key past

/-- The record tells who is excluded, and nobody was tracked while excluded. -/
structure Exclusions (m : Members) : Prop where
  excluded : ∀ key, m.isExcluded key = barred key m.history
  tracked : ∀ key later time past, m.history = later ++ ⟨time, .tracked key⟩ :: past →
    barred key past = false

namespace Exclusions

theorem noted {m m' : Members} (h : Exclusions m) {e : Entry} (history : m'.history = e :: m.history)
    (excluded : ∀ key, m'.isExcluded key = barred key (e :: m.history))
    (fresh : ∀ key, e.what = .tracked key → barred key m.history = false) : Exclusions m' := by
  refine ⟨fun key => (excluded key).trans (by rw [history]), ?_⟩
  intro key later time past hist
  rw [history] at hist
  cases later with
  | nil =>
    obtain ⟨rfl, rfl⟩ := List.cons.inj hist
    exact fresh key rfl
  | cons x rest => exact h.tracked key rest time past (List.cons.inj hist).2

theorem settle {fs : List Frame} {m : Members} {key : PeerKey} {slot : Slot} {delay : Duration}
    (h : Exclusions m) (sound : Sound ⟨.failing key slot delay :: fs, m⟩) :
    Exclusions ((m.count Tally.removed).afterFailure key slot.peer delay).2 := by
  have hs : m.slots.find? key = some slot := (sound.failing key slot delay List.mem_cons_self).1
  have history := sound.settle_history
  cases he : m.policy.isExhausted slot.peer.failures with
  | true =>
    rw [he, if_pos rfl] at history
    refine h.noted history ?_ fun k hk => by cases hk
    intro k
    rw [afterFailure_of_exhausted (m := m.count Tally.removed) delay hs he]
    show (m.excluded.insert key ()).contains k = (key == k || barred k m.history)
    rw [KeyMap.contains_insert, ← h.excluded k]
    by_cases hk : k = key
    · simp [hk]
    · simp [hk, Ne.symm hk, isExcluded]
  | false =>
    rw [he] at history
    refine h.noted history ?_ fun k hk => by cases hk
    intro k
    rw [afterFailure_of_spared (m := m.count Tally.removed) delay hs he]
    exact h.excluded k

theorem step {s s' : Situation} (h : Exclusions s.members) (sound : Sound s) (st : Step s s') :
    Exclusions s'.members := by
  cases st with
  | settle => exact h.settle sound
  | reconnect t armed due tracked failed => exact h.noted rfl h.excluded fun _ hk => by cases hk
  | enter candidates own => exact h.noted rfl h.excluded fun _ hk => by cases hk
  | leave => exact h.noted rfl h.excluded fun _ hk => by cases hk
  | withdraw tracked healthy unlisted => exact h.noted rfl h.excluded fun _ hk => by cases hk
  | drop tracked failed unlisted => exact h.noted rfl h.excluded fun _ hk => by cases hk
  | restore tracked failed listed => exact h.noted rfl h.excluded fun _ hk => by cases hk
  | reset tracked healthy listed sustained => exact h.noted rfl h.excluded fun _ hk => by cases hk
  | @enlist m candidates r running admitted untracked listed =>
    refine h.noted rfl h.excluded ?_
    intro k hk
    obtain rfl := Happening.tracked.inj hk
    exact (h.excluded r.key).symm.trans admitted
  | _ => exact ⟨h.excluded, h.tracked⟩

theorem pardon {m : Members} (h : Exclusions m) (key : PeerKey) : Exclusions (m.pardon key).2 := by
  refine h.noted rfl ?_ fun k hk => by cases hk
  intro k
  show (m.excluded.erase key).contains k = (key != k && barred k m.history)
  rw [KeyMap.contains_erase, ← h.excluded k]
  by_cases hk : k = key
  · simp [hk]
  · simp [hk, Ne.symm hk, isExcluded]

theorem lasting : Lasting fun s => Exclusions s.members where
  step sound h st := h.step sound st
  pass _ _ h _ _ _ := ⟨h.excluded, h.tracked⟩
  pardon key h := h.pardon key
  close _ h := h.noted rfl h.excluded fun _ hk => by cases hk

theorem initial (policy : Policy) (delay : Duration) (reactions : List Reaction) :
    Exclusions (.initial policy delay reactions) :=
  ⟨fun _ => rfl, fun _ later _ _ hist => by cases later <;> cases hist⟩

end Exclusions

/-- Without a pardon a peer stays excluded, going by the record. -/
theorem barred_of_excluded {key : PeerKey} {time : Nat} {later past : List Entry}
    (kept : ∀ x ∈ later, x.what ≠ .pardoned key) :
    barred key (later ++ ⟨time, .excluded key⟩ :: past) = true := by
  induction later with
  | nil => simp [barred]
  | cons x rest ih =>
    have ih := ih fun y hy => kept y (List.mem_cons_of_mem _ hy)
    have mine := kept x List.mem_cons_self
    rw [List.cons_append, barred]
    split
    · rw [ih, Bool.or_true]
    · next k hk =>
      have hne : k ≠ key := fun heq => mine (heq ▸ hk)
      rw [ih, Bool.and_true]
      exact bne_iff_ne.2 hne
    · exact ih

/-! ## A peer that nobody tracks -/

/-- An untracked peer may only be tracked, or everything may be over. -/
theorem tracked_or_closed {key : PeerKey} {past : List Entry} {e : Entry}
    (phase : phaseOf key past = .untracked) (h : Allowed key past e) :
    (∃ k, e.what = .tracked k) ∨ e.what = .closed := by
  unfold Allowed at h
  rw [phase] at h
  split at h <;> simp_all

/-- Nothing becomes of an untracked peer that nobody tracks, except that everything may be over. -/
theorem untracked_lasts {key : PeerKey} {later past : List Entry} (l : Lawful key (later ++ past))
    (phase : phaseOf key past = .untracked) (nobody : ∀ x ∈ later, x.what ≠ .tracked key) :
    phaseOf key (later ++ past) = .untracked ∧
      ∀ x ∈ later, x.what.concerns key = true → x.what = .closed := by
  induction later with
  | nil => exact ⟨phase, fun x hx => by cases hx⟩
  | cons x rest ih =>
    obtain ⟨phase', quiet⟩ := ih l.2 fun y hy => nobody y (List.mem_cons_of_mem _ hy)
    have mine := nobody x List.mem_cons_self
    cases hc : x.what.concerns key with
    | false =>
      refine ⟨(phaseOf_of_other hc _).trans phase', ?_⟩
      intro y hy hc'
      rcases List.mem_cons.1 hy with rfl | hy
      · exact absurd (hc.symm.trans hc') (by decide)
      · exact quiet y hy hc'
    | true =>
      have finished : x.what = .closed := by
        rcases tracked_or_closed phase' (l.1 hc) with ⟨k, hk⟩ | finished
        · obtain rfl : k = key := by simpa [hk, Happening.concerns] using hc
          exact absurd hk mine
        · exact finished
      refine ⟨?_, ?_⟩
      · show phaseOf key (x :: (rest ++ past)) = _
        rw [phaseOf_of_concerns hc, Phase.after, finished]
      · intro y hy hc'
        rcases List.mem_cons.1 hy with rfl | hy
        · exact finished
        · exact quiet y hy hc'

theorem Entry.concerns_of_entry? {key : PeerKey} {e : Entry} {time : Nat}
    (h : e.entry? key = some time) : e.what.concerns key = true ∧ e.what ≠ .closed := by
  obtain ⟨t, what⟩ := e
  cases what <;> simp_all [Entry.entry?, Happening.concerns]

/-- Nobody hears that such a peer entered the view. -/
theorem entries_nil {key : PeerKey} {later : List Entry}
    (quiet : ∀ x ∈ later, x.what.concerns key = true → x.what = .closed) :
    later.filterMap (Entry.entry? key) = [] := by
  refine List.filterMap_eq_nil_iff.2 fun x hx => Option.eq_none_iff_forall_ne_some.2 fun t ht => ?_
  obtain ⟨concerns, running⟩ := Entry.concerns_of_entry? ht
  exact running (quiet x hx concerns)

/-- Nobody excludes a peer of which nothing becomes. -/
theorem unbarred_lasts {key : PeerKey} {later past : List Entry} (free : barred key past = false)
    (quiet : ∀ x ∈ later, x.what.concerns key = true → x.what = .closed) :
    barred key (later ++ past) = false := by
  induction later with
  | nil => exact free
  | cons x rest ih =>
    have ih := ih fun y hy => quiet y (List.mem_cons_of_mem _ hy)
    rw [List.cons_append, barred]
    split
    · next k hk =>
      have hne : k ≠ key := by
        rintro rfl
        have closed := quiet x List.mem_cons_self (by simp [hk, Happening.concerns])
        rw [hk] at closed
        cases closed
      rw [ih, Bool.or_false]
      exact beq_eq_false_iff_ne.2 hne
    · rw [ih, Bool.and_false]
    · exact ih

/-- A cycle that has not set out lists nobody. -/
theorem not_lists {key : PeerKey} {later past : List Entry} (idle : cycle? past = none)
    (unlisted : ∀ x ∈ later, ∀ candidates, x.what = .resolved candidates →
      candidates.contains key = false) : ¬ Lists (later ++ past) key := by
  induction later with
  | nil =>
    rintro ⟨candidates, hc, -⟩
    rw [List.nil_append, idle] at hc
    cases hc
  | cons x rest ih =>
    have ih := ih fun y hy => unlisted y (List.mem_cons_of_mem _ hy)
    rintro ⟨candidates, hc, listed⟩
    rw [List.cons_append, cycle?] at hc
    split at hc
    · next c hx =>
      obtain rfl := Option.some.inj hc
      exact absurd ((unlisted x List.mem_cons_self _ hx).symm.trans listed) (by decide)
    · cases hc
    · exact ih ⟨candidates, hc, listed⟩

/-- Between operations no cycle is under way. -/
theorem idle_lasting : Lasting fun s =>
    (∀ candidates, .cycling candidates ∉ s.frames) → cycle? s.members.history = none where
  step {s s'} sound h st calm := by
    cases st with
    | aside journal reactions used => exact h calm
    | reply reply => exact h calm
    | count hf => exact h calm
    | fail tracked healthy => exact h fun c hc => calm c (List.mem_cons_of_mem _ hc)
    | @settle fs m key slot delay =>
      show cycle? ((m.count Tally.removed).afterFailure key slot.peer delay).2.history = none
      rw [sound.settle_history]
      have idle : cycle? m.history = none := h fun c hc => calm c (by simpa using hc)
      cases m.policy.isExhausted slot.peer.failures <;> exact idle
    | reconnect t armed due tracked failed => exact h fun c hc => by cases hc
    | reconnected => exact h fun c hc => calm c (by simpa using hc)
    | enter candidates own => exact absurd List.mem_cons_self (calm candidates)
    | leave => rfl
    | @withdraw m candidates key slot tracked healthy unlisted =>
      exact absurd (List.mem_cons_of_mem _ List.mem_cons_self) (calm candidates)
    | withdrawn => exact h fun c hc => calm c (by simpa using hc)
    | @drop m candidates key slot tracked failed unlisted =>
      exact absurd List.mem_cons_self (calm candidates)
    | @restore m candidates slot r tracked failed listed =>
      exact absurd (List.mem_cons_of_mem _ List.mem_cons_self) (calm candidates)
    | @reset m candidates slot r tracked healthy listed sustained =>
      exact absurd List.mem_cons_self (calm candidates)
    | @refresh m candidates slot r tracked listed => exact absurd List.mem_cons_self (calm candidates)
    | @enlist m candidates r running admitted untracked listed =>
      exact absurd (List.mem_cons_of_mem _ List.mem_cons_self) (calm candidates)
    | announced => exact h fun c hc => calm c (by simpa using hc)
  pass _ _ h _ _ _ := h
  pardon _ h := h
  close _ h := h

/-! ## What the record says about a peer -/

/-- Who is excluded is not tracked. -/
theorem Sound.untracked_of_excluded {s : Situation} (h : Sound s) {key : PeerKey}
    (excluded : s.members.isExcluded key = true) : s.members.slots.find? key = none := by
  cases hs : s.members.slots.find? key with
  | none => rfl
  | some slot => exact absurd ((h.own key slot hs).2.2.2.symm.trans excluded) (by decide)

section Record

variable {m : Members} {key : PeerKey}

/-- **After an exclusion nothing becomes of the peer until it is pardoned.** -/
theorem shut_out (chronicle : Chronicle ⟨[], m⟩) (exclusions : Exclusions m) {later past : List Entry}
    {time : Nat} (hist : m.history = later ++ ⟨time, .excluded key⟩ :: past)
    (kept : ∀ x ∈ later, x.what ≠ .pardoned key) :
    m.isExcluded key = true ∧ later.filterMap (Entry.entry? key) = [] := by
  refine ⟨?_, entries_nil ?_⟩
  · rw [exclusions.excluded, hist]
    exact barred_of_excluded kept
  · have phase : phaseOf key (⟨time, .excluded key⟩ :: past) = .untracked :=
      phaseOf_of_concerns (by simp [Happening.concerns]) _
    refine (untracked_lasts (hist ▸ (chronicle.peers key).lawful) phase ?_).2
    intro x hx tracked
    obtain ⟨newer, older, rfl⟩ := List.append_of_mem hx
    obtain ⟨t, what⟩ := x
    obtain rfl : what = .tracked key := tracked
    have free := exclusions.tracked key newer t (older ++ ⟨time, .excluded key⟩ :: past)
      (by rw [hist]; simp)
    have barred' : barred key (older ++ ⟨time, .excluded key⟩ :: past) = true :=
      barred_of_excluded fun y hy => kept y (by simp [hy])
    exact absurd (free.symm.trans barred') (by decide)

/-- **A peer that is not tracked stays out until a cycle lists it**, and nobody excludes it. -/
theorem unlisted_stays_out (chronicle : Chronicle ⟨[], m⟩) (sound : Sound ⟨[], m⟩)
    (exclusions : Exclusions m) {later past : List Entry} (hist : m.history = later ++ past)
    (phase : phaseOf key past = .untracked) (idle : cycle? past = none)
    (free : barred key past = false)
    (unlisted : ∀ x ∈ later, ∀ candidates, x.what = .resolved candidates →
      candidates.contains key = false) :
    m.isExcluded key = false ∧ m.slots.find? key = none ∧
      later.filterMap (Entry.entry? key) = [] := by
  have lawful : Lawful key (later ++ past) := hist ▸ (chronicle.peers key).lawful
  have nobody : ∀ x ∈ later, x.what ≠ .tracked key := by
    intro x hx tracked
    obtain ⟨newer, older, rfl⟩ := List.append_of_mem hx
    rw [List.append_assoc] at lawful
    have allowed := allowed_of_lawful lawful (by simp [tracked, Happening.concerns])
    have lists : Lists (older ++ past) key := by
      unfold Allowed at allowed
      rw [tracked] at allowed
      split at allowed <;> simp_all
    exact not_lists idle (fun y hy => unlisted y (by simp [hy])) lists
  obtain ⟨phase', quiet⟩ := untracked_lasts lawful phase nobody
  refine ⟨?_, chronicle.untracked_of_phase sound (hist ▸ phase'), entries_nil quiet⟩
  rw [exclusions.excluded, hist]
  exact unbarred_lasts free quiet

end Record

/-! ## Who pardons -/

/-- The happening is that the exclusion of this peer is lifted. -/
def Happening.pardons (key : PeerKey) : Happening → Bool
  | .pardoned k => k == key
  | _ => false

/-- How often somebody lifted the exclusion of the peer. -/
def Members.pardons (m : Members) (key : PeerKey) : Nat := m.history.countP (·.what.pardons key)

theorem Step.pardons {s s' : Situation} (st : Step s s') (sound : Sound s) (key : PeerKey) :
    s'.members.pardons key = s.members.pardons key := by
  cases st with
  | @settle fs m k slot delay =>
    show ((m.count Tally.removed).afterFailure k slot.peer delay).2.history.countP _ = m.history.countP _
    rw [sound.settle_history]
    cases m.policy.isExhausted slot.peer.failures <;> rfl
  | _ => rfl

theorem Steps.pardons {s s' : Situation} (st : Steps s s') (sound : Sound s) (key : PeerKey) :
    s'.members.pardons key = s.members.pardons key := by
  induction st with
  | refl => rfl
  | tail before st ih => exact (st.pardons (sound.steps before) key).trans ih

namespace Engine

variable {config : Config} {e e' : Engine}

theorem Quietly.pardons (q : Quietly e e') (key : PeerKey) :
    e'.members.pardons key = e.members.pardons key := by
  induction q with
  | refl => rfl
  | tail _ q ih =>
    refine Eq.trans ?_ ih
    cases q with
    | aside a => rw [a.members]
    | _ => rfl

theorem Orderly.works_pardons (h : Orderly config e) (w : Works e e') (key : PeerKey) :
    e'.members.pardons key = e.members.pardons key := by
  cases w with
  | quiet q => exact q.pardons key
  | @answer e₁ _ before id answer after =>
    have h₁ := h.aside before
    have briefed : (e₁.briefed answer).members.pardons key = e₁.members.pardons key :=
      Quietly.pardons (foldl_write_quietly _) key
    have concluded := (h₁.reconcile_briefed answer).trans (conclusion_counts e₁ id answer)
    have done := (Steps.pardons concluded (h₁.briefed answer).sound key).trans briefed
    rw [before.members] at done
    exact (after.pardons key).trans done

/-- Nobody is pardoned unless somebody asks for it. -/
theorem Orderly.act_pardons (h : Orderly config e) {deed : Deed} (allowed : e.Allows deed)
    {key : PeerKey} (other : deed ≠ .pardon key) :
    (e.act deed).members.pardons key = e.members.pardons key := by
  have ask : ∀ {e'}, Quietly e e' → e'.members.pardons key = e.members.pardons key :=
    fun q => q.pardons key
  cases deed with
  | turn job heeds =>
    cases hjob : job.timer? with
    | none => exact h.works_pardons (turn_works hjob) key
    | some timer =>
      cases job with
      | arm id => exact (h.armTimer id).1.pardons h.sound key
      | fire id =>
        have hid : (Job.fire id).timer? = some id := rfl
        have due : ∀ t ∈ e.members.timers, t.id = id → t.due = e.now := fun t ht heq =>
          h.fires t ht (heq ▸ allowed)
        exact (h.fireTimer hid due).1.pardons h.sound key
      | start id => cases hjob
      | resume id => cases hjob
      | loop => cases hjob
  | wait time =>
    obtain ⟨ready, hjump, -⟩ := jump_eq e time
    show (e.jump time).members.pardons key = _
    rw [hjump]
    rfl
  | fail k => exact (fail_steps tell_tells [] h.polite k).pardons h.sound key
  | pardon k =>
    have hne : k ≠ key := fun heq => other (heq ▸ rfl)
    have lifted : (e.members.pardon k).2.pardons key = e.members.pardons key := by
      simp [Members.pardons, Members.pardon, note, Happening.pardons, hne]
    show (e.pardon k).2.members.pardons key = _
    unfold Engine.pardon
    dsimp only
    split <;> exact lifted
  | call => exact ask (ask_quietly trivial)
  | spawn => exact ask (ask_quietly trivial)
  | cancel => exact ask (ask_quietly trivial)
  | stop => exact ask (ask_quietly trivial)
  | release => exact ask (ask_quietly trivial)
  | serve directory => exact ask (ask_quietly trivial)

/-- In a run in which nobody asks for it, the peer is not pardoned. -/
theorem Orderly.leads_pardons (h : Orderly config e) {deeds : List Deed} (l : Leads e deeds e')
    {key : PeerKey} (nobody : Deed.pardon key ∉ deeds) {later : List Entry}
    (hist : e'.members.history = later ++ e.members.history) :
    ∀ x ∈ later, x.what ≠ .pardoned key := by
  have same : e'.members.pardons key = e.members.pardons key := by
    clear hist
    induction l with
    | start => rfl
    | next before deed allowed ih =>
      have earlier := ih fun hm => nobody (List.mem_cons_of_mem _ hm)
      exact ((h.leads before).2.act_pardons allowed fun heq => nobody (heq ▸ List.mem_cons_self)).trans
        earlier
  rw [Members.pardons, hist, List.countP_append] at same
  have none : later.countP (·.what.pardons key) = 0 := by
    have : later.countP (·.what.pardons key) + e.members.pardons key = e.members.pardons key := same
    omega
  intro x hx heq
  have := List.countP_eq_zero.1 none x hx
  rw [heq] at this
  simp [Happening.pardons] at this

/-! ## The way back -/

/-- On the way from one state to another the peer comes to be tracked: the listener is told of it with
this record, and it then is a new peer in every respect. -/
structure Welcomed (config : Config) (e e' : Engine) (key : PeerKey) (record : Record) : Prop where
  announced : ∃ frames m m', Steps ⟨[], e.members⟩ ⟨frames, m⟩ ∧ Steps ⟨frames, m⟩ ⟨[], m'⟩ ∧
    Moves m' e'.members ∧ m.told.head? = some (.notice e.now (.added record)) ∧
    m.find? key = some (.fresh record config.initialReconnectDelay e.now)
  told : ∃ after before,
    e'.members.told = after ++ .notice e.now (.added record) :: (before ++ e.members.told)
  tracked : ∃ later sooner,
    e'.members.history = later ++ ⟨e.now, .tracked key⟩ :: (sooner ++ e.members.history)

theorem Welcomed.quietly {key : PeerKey} {record : Record} (h : Welcomed config e e' key record)
    (ordered : Orderly config e') {e'' : Engine} (q : Quietly e' e'') :
    Welcomed config e e'' key record := by
  obtain ⟨frames, m, m', before, after, moves, heard, found⟩ := h.announced
  obtain ⟨said, sooner, htold⟩ := h.told
  obtain ⟨later, past, hist⟩ := h.tracked
  obtain ⟨more, hmore⟩ := q.moves.history ordered.sound
  refine ⟨⟨frames, m, m', before, after, moves.trans q.moves, heard, found⟩, ⟨said, sooner, ?_⟩,
    more ++ later, past, ?_⟩
  · rw [q.uneventful.told, htold]
  · rw [hmore, hist, List.append_assoc]

/-- **A cycle announces everyone who is listed and not tracked yet**, whatever the listener answers
meanwhile. -/
theorem Orderly.conclusion_welcomes (h : Orderly config e) (running : e.running = true) (id : Nat)
    (answer : List Record) {key : PeerKey} {record : Record} (untracked : e.members.find? key = none)
    (listed : (e.found answer).1.find? key = some record) :
    key ∈ (reconcile Members.tell (e.found answer).1 (e.briefed answer).members).1.added ∧
      Welcomed config e (e.conclusion id answer) key record := by
  have ordered := h.briefed answer
  have own := briefed_own e answer
  have concluded := conclusion_counts e id answer
  obtain ⟨journal, hb⟩ := briefed_eq e answer
  have hm : (e.briefed answer).members = { e.members with journal } := by rw [hb]
  have sound := ordered.sound
  have polite := ordered.polite
  generalize (e.briefed answer).members = members at own sound polite hm concluded ⊢
  subst hm
  have new : (key, record) ∈ Members.newcomers { e.members with journal } (e.found answer).1 := by
    refine List.mem_filter.2 ⟨KeyMap.find?_eq_some_iff.1 listed, ?_⟩
    show (e.members.find? key).isNone = true
    rw [untracked]
    rfl
  obtain ⟨added, m₁, m₂, before, tracked, rfl, after⟩ :=
    reconcile_enrols sound polite (h.open_of_running running) own new
  have written : Step ⟨[], e.members⟩ ⟨[], { e.members with journal }⟩ :=
    .aside journal e.members.reactions fun _ hr => hr
  have set_out := Step.enter (e.found answer).1 own
  have hnow : m₁.now = e.now := before.fixed.2.2.1
  have hdelay : m₁.initialDelay = config.initialReconnectDelay := before.fixed.2.1.trans h.delay
  obtain ⟨heard, hheard⟩ := before.told
  have rest : Steps _ _ := after.trans concluded
  obtain ⟨said, hsaid⟩ := rest.told
  obtain ⟨sooner, hsooner⟩ := before.history (sound.step set_out)
  obtain ⟨later, hlater⟩ := rest.history (((sound.step set_out).steps before).step tracked)
  have hheard' : m₁.told = heard ++ e.members.told := hheard
  have hsooner' : m₁.history =
      sooner ++ ⟨e.now, .resolved (e.found answer).1⟩ :: e.members.history := hsooner
  refine ⟨added, ⟨_, _, _, ((ReflTransGen.single written).tail set_out).trans (before.tail tracked),
    after, .single (.work concluded), ?_, ?_⟩, ⟨said, heard, hsaid.trans ?_⟩, later,
    sooner ++ [⟨e.now, .resolved (e.found answer).1⟩], hlater.trans ?_⟩
  · show some (Told.notice m₁.now (.added record)) = _
    rw [hnow]
  · rw [hdelay, hnow]
    unfold Members.find?
    rw [slot?_eq_some_iff.2 ⟨(KeyMap.find?_insert _ _ _ _).trans (if_pos rfl), rfl⟩]
    rfl
  · show said ++ .notice m₁.now (.added record) :: m₁.told = _
    rw [hnow, hheard']
  · show later ++ ⟨m₁.now, .tracked key⟩ :: m₁.history = _
    rw [hnow, hsooner', List.append_assoc]
    rfl

/-- Where nothing becomes of a peer, it stays where it was. -/
theorem quiet_lasts (policy : Policy) {key : PeerKey} {later past : List Entry}
    (quiet : ∀ x ∈ later, x.what.concerns key = false) :
    phaseOf key (later ++ past) = phaseOf key past ∧
      ledgerOf policy key (later ++ past) = ledgerOf policy key past := by
  induction later with
  | nil => exact ⟨rfl, rfl⟩
  | cons x rest ih =>
    have other := quiet x List.mem_cons_self
    rw [List.cons_append, phaseOf_of_other other, ledgerOf_of_other other]
    exact ih fun y hy => quiet y (List.mem_cons_of_mem _ hy)

/-- A peer that was tracked and that nothing has become of since has the counters of a new one. -/
theorem Reachable.fresh_counters (h : Reachable config e) {key : PeerKey} {later past : List Entry}
    {time : Nat} (hist : e.members.history = later ++ ⟨time, .tracked key⟩ :: past)
    (quiet : ∀ x ∈ later, x.what.concerns key = false) : ∃ peer, e.members.find? key = some peer ∧
      peer.failed = false ∧ peer.failures = 0 ∧ peer.delay = config.initialReconnectDelay := by
  have sound := h.orderly.sound
  have chronicle : Chronicle ⟨[], e.members⟩ :=
    h.keeps Chronicle.lasting fun _ => Chronicle.initial _ _ _
  have valid := delays_of_valid h.valid
  have booked : Booked config.policy ⟨[], e.members⟩ := h.keeps (Booked.lasting valid) Booked.initially
  have entry : (Happening.tracked key).concerns key = true := by simp [Happening.concerns]
  have known : phaseOf key e.members.history = .healthy ∧
      ledgerOf config.policy key e.members.history = ⟨time, 0, 0, false⟩ := by
    obtain ⟨phase, ledger⟩ := quiet_lasts config.policy quiet
    rw [hist, phase, ledger]
    exact ⟨phaseOf_of_concerns entry _, ledgerOf_of_concerns entry _⟩
  obtain ⟨phase, ledger⟩ := known
  obtain ⟨slot, hs, hf⟩ := chronicle.healthy_of_phase sound phase
  obtain ⟨same, -⟩ := booked.settled key slot hs (not_reporting_nil key)
  rw [ledger] at same
  refine ⟨slot.peer, sound.find?_eq_some_iff.2 ⟨slot, hs, rfl⟩, hf, UInt32.toNat_inj.1 same.failures, ?_⟩
  exact Duration.ext (same.delay.trans (Booked.delay_zero valid rfl).symm)

/-! ## Discovery -/

/-- A failure that excludes the peer is on record. -/
theorem fail_excluded (h : Orderly config e) {key : PeerKey} {failures : UInt32}
    (excluded : (e.fail key).1 = .excluded failures) : ∃ before,
      (e.fail key).2.members.history = ⟨e.now, .excluded key⟩ :: before := by
  have answer : (e.members.fail Members.tell key).1 = .excluded failures := excluded
  obtain ⟨m, peer, delay, hnow, heq⟩ :=
    fail_settles h.polite (by rw [answer]; nofun) (by rw [answer]; nofun)
  obtain ⟨-, -, later, -⟩ := afterFailure_fixed m key peer delay
  show ∃ before, (e.members.fail Members.tell key).2.history = ⟨e.members.now, .excluded key⟩ :: before
  rw [heq] at answer ⊢
  rw [← hnow, ← later]
  unfold afterFailure at answer ⊢
  split at answer
  · next exhausted =>
    rw [if_pos exhausted]
    exact ⟨_, rfl⟩
  · cases answer

theorem pardon_history (e : Engine) (key : PeerKey) :
    (e.pardon key).2.members.history = ⟨e.now, .pardoned key⟩ :: e.members.history := by
  unfold Engine.pardon
  dsimp only
  split <;> rfl

/-- **An excluded peer stays out until it is pardoned, and then the first cycle that lists it brings
it back.** Nobody is tracked and excluded at once. After a failure that excluded the peer, whatever
happens short of a pardon, it stays excluded and untracked, and the listener hears of no entry into
the view; so it is after every exclusion on record, whoever reported the failure and whatever was
under way. After a pardon the peer stays out until a cycle lists it. The first one to do so before
the end tracks it, reports it as added and tells the listener, and the peer then is a new one in
every respect. As long as nothing else becomes of it, its counters stay those of a new peer. -/
theorem excluded_until_pardoned (h : Reachable config e) (key : PeerKey) :
    (∀ k, e.members.isExcluded k = true → e.members.find? k = none) ∧
    (∀ failures, (e.fail key).1 = .excluded failures → ∀ deeds e', Leads (e.fail key).2 deeds e' →
      Deed.pardon key ∉ deeds →
        e'.members.isExcluded key = true ∧ e'.members.find? key = none ∧
        e'.members.told.filterMap (Told.entry? key) =
          (e.fail key).2.members.told.filterMap (Told.entry? key)) ∧
    (∀ later time past, e.members.history = later ++ ⟨time, .excluded key⟩ :: past →
      (∀ x ∈ later, x.what ≠ .pardoned key) →
        e.members.isExcluded key = true ∧ e.members.find? key = none ∧
        e.members.told.filterMap (Told.entry? key) = past.filterMap (Entry.entry? key)) ∧
    (e.members.isExcluded key = true → ∀ deeds e' later, Leads (e.pardon key).2 deeds e' →
      e'.members.history = later ++ (e.pardon key).2.members.history →
      (∀ x ∈ later, ∀ candidates, x.what = .resolved candidates →
        candidates.contains key = false) →
        e'.members.isExcluded key = false ∧ e'.members.find? key = none ∧
        e'.members.told.filterMap (Told.entry? key) =
          (e.pardon key).2.members.told.filterMap (Told.entry? key) ∧
        ∀ deed id report, e'.running = true → e'.Allows deed →
          (e'.act deed).results = (id, .ok report) :: e'.results → report.resolved = true →
            ∃ candidates extra, (∃ answer, e'.found answer = (candidates, report.partition)) ∧
              (e'.act deed).members.history =
                extra ++ ⟨e'.now, .resolved candidates⟩ :: e'.members.history ∧
              ∀ record, candidates.find? key = some record → key ∈ report.changes.added ∧
                Welcomed config e' (e'.act deed) key record) ∧
    ∀ later time past, e.members.history = later ++ ⟨time, .tracked key⟩ :: past →
      (∀ x ∈ later, x.what.concerns key = false) → ∃ peer, e.members.find? key = some peer ∧
        peer.failed = false ∧ peer.failures = 0 ∧ peer.delay = config.initialReconnectDelay := by
  have chronicle : ∀ {e}, Reachable config e → Chronicle ⟨[], e.members⟩ := fun h =>
    h.keeps Chronicle.lasting fun _ => Chronicle.initial _ _ _
  have exclusions : ∀ {e}, Reachable config e → Exclusions e.members := fun h =>
    h.keeps Exclusions.lasting fun _ => Exclusions.initial _ _ _
  have announced : ∀ {e}, Reachable config e → e.members.Announced := fun h =>
    h.keeps Members.Announced.lasting fun _ _ => rfl
  have untracked : ∀ {e}, Reachable config e → ∀ {k}, e.members.slots.find? k = none →
      e.members.find? k = none := fun h k hs => by
    rw [h.orderly.sound.find?_eq]
    exact congrArg (Option.map _) hs
  have apart : ∀ {e}, Reachable config e → ∀ k, e.members.isExcluded k = true →
      e.members.find? k = none := fun h k hk =>
    untracked h (h.orderly.sound.untracked_of_excluded hk)
  have since : ∀ {e}, Reachable config e → ∀ later time past,
      e.members.history = later ++ ⟨time, .excluded key⟩ :: past →
      (∀ x ∈ later, x.what ≠ .pardoned key) →
        e.members.isExcluded key = true ∧ e.members.find? key = none ∧
        e.members.told.filterMap (Told.entry? key) = past.filterMap (Entry.entry? key) := by
    intro e h later time past hist kept
    obtain ⟨excluded, nothing⟩ := shut_out (chronicle h) (exclusions h) hist kept
    refine ⟨excluded, apart h key excluded, ?_⟩
    rw [announced h key, hist, List.filterMap_append, nothing]
    rfl
  refine ⟨apart h, ?_, since h, ?_, fun later time past hist quiet => h.fresh_counters hist quiet⟩
  · intro failures excluded deeds e' l nobody
    have failed : Reachable config (e.fail key).2 := h.leads (Leads.start.next (.fail key) trivial)
    obtain ⟨before, hbefore⟩ := fail_excluded h.orderly excluded
    obtain ⟨later, hlater⟩ := (failed.orderly.leads l).1.history failed.orderly.sound
    have kept := failed.orderly.leads_pardons l nobody hlater
    rw [hbefore] at hlater
    obtain ⟨excluded', out, heard⟩ := since (failed.leads l) later _ before hlater kept
    refine ⟨excluded', out, heard.trans ?_⟩
    rw [announced failed key, hbefore]
    rfl
  · intro excluded deeds e' later l hist unlisted
    have pardoned : Reachable config (e.pardon key).2 :=
      h.leads (Leads.start.next (.pardon key) trivial)
    have h' := pardoned.leads l
    have ordered := h'.orderly
    have past := pardon_history e key
    have phase : phaseOf key (e.pardon key).2.members.history = .untracked := by
      rw [past, phaseOf_of_other rfl]
      exact ((chronicle h).peers key).untracked (h.orderly.sound.untracked_of_excluded excluded)
    have idle : cycle? (e.pardon key).2.members.history = none :=
      (pardoned.keeps idle_lasting fun _ _ => rfl) fun _ hc => by cases hc
    have free : barred key (e.pardon key).2.members.history = false := by
      rw [past, barred]
      simp
    obtain ⟨admitted, out, nothing⟩ := unlisted_stays_out (chronicle h') ordered.sound
      (exclusions h') hist phase idle free unlisted
    refine ⟨admitted, untracked h' out, ?_, ?_⟩
    · rw [announced h' key, announced pardoned key, hist, List.filterMap_append, nothing]
      rfl
    · intro deed id report running allowed ends resolved
      obtain ⟨e₁, answer, before, after, rfl⟩ := cycle_of_results ends resolved
      have ordered₁ := ordered.aside before
      obtain ⟨extra, hextra⟩ := ordered₁.conclusion_history id answer
      obtain ⟨more, hmore⟩ := after.moves.history (ordered₁.conclusion id answer).sound
      have found : e'.found answer = e₁.found answer := by
        simp only [Engine.found, before.config, before.members]
      have hnow : e₁.now = e'.now := congrArg Members.now before.members
      refine ⟨(e₁.found answer).1, more ++ extra, ⟨answer, found⟩, ?_, ?_⟩
      · rw [hmore, hextra, before.members, hnow, List.append_assoc]
      · intro record listed
        obtain ⟨added, welcomed⟩ := ordered₁.conclusion_welcomes (before.running.trans running) id
          answer (before.members ▸ untracked h' out) listed
        refine ⟨added, ?_⟩
        obtain ⟨steps, told, tracked⟩ := welcomed.quietly (ordered₁.conclusion id answer) after
        rw [before.members, hnow] at steps told tracked
        exact ⟨steps, told, tracked⟩

/-- A peer that is excluded by its first counted failure stays out of a cycle that lists it. Pardoned,
it is back with the next one. -/
theorem comes_back_after_pardon : ∃ e e' asked,
    session (Config.standard.set (.maxReconnectAttempts 1)) (.fixed ⟨[.plain "a" 0]⟩) []
      [.turn .loop, .turn (.resume 0), .turn (.resume 0), .wait 1000000000] = some e ∧
    (e.fail ⟨"a"⟩).1 = .excluded 1 ∧
    (e.fail ⟨"a"⟩).2.replay [.call, .turn (.resume 1), .turn (.resume 1), .wait 2000000000] = some e' ∧
    (e'.members.isExcluded ⟨"a"⟩ = true ∧ e'.members.find? ⟨"a"⟩ = none) ∧
    (e'.pardon ⟨"a"⟩).2.replay [.call, .turn (.resume 2)] = some asked ∧
    ∃ report, (asked.act (.turn (.resume 2))).results = (2, .ok report) :: asked.results ∧
      ⟨"a"⟩ ∈ report.changes.added ∧
      Welcomed (Config.standard.set (.maxReconnectAttempts 1)) asked (asked.act (.turn (.resume 2)))
        ⟨"a"⟩ (.plain "a" 0) := by
  obtain ⟨e, he, hp⟩ := (Option.any_eq_true _ _).1 (show
    (session (Config.standard.set (.maxReconnectAttempts 1)) (.fixed ⟨[.plain "a" 0]⟩) []
      [.turn .loop, .turn (.resume 0), .turn (.resume 0), .wait 1000000000]).any (fun e =>
        decide ((e.fail ⟨"a"⟩).1 = .excluded 1) && ((e.fail ⟨"a"⟩).2.replay
          [.call, .turn (.resume 1), .turn (.resume 1), .wait 2000000000]).any (fun e' =>
            ((e'.pardon ⟨"a"⟩).2.replay [.call, .turn (.resume 2)]).any (fun asked =>
              asked.running && decide (asked.Allows (.turn (.resume 2))) &&
              decide ((asked.act (.turn (.resume 2))).results =
                (2, .ok ⟨true, 1, ⟨[⟨"a"⟩], [], []⟩, .disabled⟩) :: asked.results) &&
              decide (asked.now = 2000000000) && decide (asked.members.history.length =
                (e'.pardon ⟨"a"⟩).2.members.history.length) &&
              (asked.act (.turn (.resume 2))).members.history.all (fun x => x.time != 2000000000 ||
                match x.what with
                | .resolved candidates => candidates.find? ⟨"a"⟩ == some (.plain "a" 0)
                | _ => true)))) = true by decide +kernel)
  obtain ⟨hf, hp⟩ := Bool.and_eq_true_iff.1 hp
  obtain ⟨e', he', hp⟩ := (Option.any_eq_true _ _).1 hp
  obtain ⟨asked, hasked, hp⟩ := (Option.any_eq_true _ _).1 hp
  simp only [Bool.and_eq_true, decide_eq_true_eq] at hp
  obtain ⟨⟨⟨⟨⟨running, allowed⟩, ends⟩, hnow⟩, hlength⟩, hlisted⟩ := hp
  have h : Reachable _ e := reachable_of_session (by simp) he
  have h' : Reachable _ e' :=
    (h.leads (Leads.start.next (.fail ⟨"a"⟩) trivial)).leads (replay_leads he')
  have pardoned : Reachable _ (e'.pardon ⟨"a"⟩).2 :=
    h'.leads (Leads.start.next (.pardon ⟨"a"⟩) trivial)
  have l := replay_leads hasked
  obtain ⟨later, hlater⟩ := (pardoned.orderly.leads l).1.history pardoned.orderly.sound
  obtain rfl : later = [] := List.eq_nil_of_length_eq_zero (by
    have := congrArg List.length hlater
    rw [List.length_append] at this
    omega)
  obtain ⟨-, out, -⟩ := excluded_until_pardoned h ⟨"a"⟩
  obtain ⟨excluded, gone, -⟩ := out 1 (of_decide_eq_true hf) _ e' (replay_leads he') (by simp)
  obtain ⟨-, -, -, back, -⟩ := excluded_until_pardoned h' ⟨"a"⟩
  obtain ⟨-, -, -, welcome⟩ := back excluded _ asked [] l hlater fun x hx => by cases hx
  obtain ⟨candidates, extra, -, hist, listed⟩ := welcome _ _ _ running allowed ends rfl
  have found : candidates.find? ⟨"a"⟩ = some (.plain "a" 0) := by
    have entry := List.all_eq_true.1 hlisted ⟨asked.now, .resolved candidates⟩ (by rw [hist]; simp)
    simpa [hnow] using entry
  obtain ⟨added, welcomed⟩ := listed _ found
  exact ⟨e, e', asked, he, of_decide_eq_true hf, he', ⟨excluded, gone⟩, hasked, _, ends, added, welcomed⟩

/-- A cycle in flight when discovery is stopped finds a pardoned peer, and announces nobody. -/
theorem not_welcomed_once_stopped : ∃ e e',
    session (Config.standard.set (.maxReconnectAttempts 1))
      (.scripted ⟨[⟨.ok [.plain "a" 0], .zero⟩, ⟨.ok [.plain "a" 0], .ofMillis 100⟩], none⟩) []
      [.turn .loop, .turn (.resume 0), .turn (.resume 0), .wait 1000000000, .fail ⟨"a"⟩, .call,
        .turn (.resume 1)] = some e ∧
    e.members.isExcluded ⟨"a"⟩ = true ∧
    (e.pardon ⟨"a"⟩).2.replay [.stop, .turn .loop, .wait 1100000000] = some e' ∧
    e'.results = e.results ∧ e'.Allows (.turn (.resume 1)) ∧
    (e'.found [.plain "a" 0]).1.contains ⟨"a"⟩ = true ∧
    (e'.act (.turn (.resume 1))).results =
      (1, .ok ⟨true, 1, ⟨[], [], []⟩, .disabled⟩) :: e'.results ∧
    (e'.act (.turn (.resume 1))).members.heard ⟨"a"⟩ = e'.members.heard ⟨"a"⟩ ∧
    (e'.act (.turn (.resume 1))).members.find? ⟨"a"⟩ = none := by
  obtain ⟨e, he, hp⟩ := (Option.any_eq_true _ _).1 (show
    (session (Config.standard.set (.maxReconnectAttempts 1))
      (.scripted ⟨[⟨.ok [.plain "a" 0], .zero⟩, ⟨.ok [.plain "a" 0], .ofMillis 100⟩], none⟩) []
      [.turn .loop, .turn (.resume 0), .turn (.resume 0), .wait 1000000000, .fail ⟨"a"⟩, .call,
        .turn (.resume 1)]).any (fun e => e.members.isExcluded ⟨"a"⟩ &&
          ((e.pardon ⟨"a"⟩).2.replay [.stop, .turn .loop, .wait 1100000000]).any (fun e' =>
            decide (e'.results = e.results ∧ e'.Allows (.turn (.resume 1)) ∧
              (e'.found [.plain "a" 0]).1.contains ⟨"a"⟩ = true ∧
              (e'.act (.turn (.resume 1))).results =
                (1, .ok ⟨true, 1, ⟨[], [], []⟩, .disabled⟩) :: e'.results ∧
              (e'.act (.turn (.resume 1))).members.heard ⟨"a"⟩ = e'.members.heard ⟨"a"⟩ ∧
              (e'.act (.turn (.resume 1))).members.find? ⟨"a"⟩ = none))) = true by decide +kernel)
  obtain ⟨excluded, hp⟩ := Bool.and_eq_true_iff.1 hp
  obtain ⟨e', he', hp⟩ := (Option.any_eq_true _ _).1 hp
  exact ⟨e, e', he, excluded, he', of_decide_eq_true hp⟩

end Engine

end Roster
