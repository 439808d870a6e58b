import Roster.Proofs.Session

/-!
# Proofs.Chronicle — the record of what became of each peer is a lawful one

* `Phase`, `phaseOf`: what a peer is, going by the record. `cycle?`: the candidates of the cycle under
  way, going by the record.
* `Allowed`, `Lawful`: what may become of a peer in each phase, and when.
* `Chronicle`: the record is lawful and tells what is the case. `Chronicle.lasting`: always.
* `failure_ends`: what a lawful record says about the end of a failure.
-/

namespace Roster

open Members Relation

/-! ## Reading the record -/

/-- The happening decides what the peer is. -/
def Happening.concerns (key : PeerKey) : Happening → Bool
  | .tracked k | .scheduled k _ _ | .excluded k | .reconnected k | .restored k _ | .reset k
  | .dropped k => k == key
  | .closed => true
  | .pardoned _ | .resolved _ | .reconciled => false

/-- What a peer is. -/
inductive Phase where
  | untracked
  | healthy
  /-- It failed at this time and is announced again after the delay. -/
  | failed (time : Nat) (delay : Duration)

/-- What a peer is after an entry that concerns it. -/
def Phase.after (p : Phase) (e : Entry) : Phase :=
  match e.what with
  | .tracked _ | .reconnected _ | .restored _ _ => .healthy
  | .scheduled _ delay _ => .failed e.time delay
  | .excluded _ | .dropped _ | .closed => .untracked
  | _ => p

def phaseOf (key : PeerKey) : List Entry → Phase
  | [] => .untracked
  | e :: past => if e.what.concerns key then (phaseOf key past).after e else phaseOf key past

/-- The candidates of the cycle that is under way, going by the record. -/
def cycle? : List Entry → Option (KeyMap Record)
  | [] => none
  | e :: past =>
    match e.what with
    | .resolved candidates => some candidates
    | .reconciled => none
    | _ => cycle? past

/-- A cycle is under way that lists the peer. -/
def Lists (past : List Entry) (key : PeerKey) : Prop :=
  ∃ candidates, cycle? past = some candidates ∧ candidates.contains key = true

/-- A cycle is under way that does not list the peer. -/
def Omits (past : List Entry) (key : PeerKey) : Prop :=
  ∃ candidates, cycle? past = some candidates ∧ candidates.contains key = false

/-- What may become of a peer. A failed one comes back by its timer when that is due and not before,
or a cycle or the end is quicker. -/
def Allowed (key : PeerKey) (past : List Entry) (e : Entry) : Prop :=
  match e.what, phaseOf key past with
  | .tracked _, .untracked => Lists past key
  | .scheduled _ _ _, .healthy => True
  | .excluded _, .healthy => True
  | .reset _, .healthy => Lists past key
  | .reconnected _, .failed time delay => e.time = Clock.after time delay
  | .restored _ _, .failed time delay => e.time ≤ Clock.after time delay ∧ Lists past key
  | .dropped _, .healthy => Omits past key
  | .dropped _, .failed time delay => e.time ≤ Clock.after time delay ∧ Omits past key
  | .closed, .failed time delay => e.time ≤ Clock.after time delay
  | .closed, _ => True
  | _, _ => False

/-- Everything that became of the peer was allowed at that point. -/
def Lawful (key : PeerKey) : List Entry → Prop
  | [] => True
  | e :: past => (e.what.concerns key = true → Allowed key past e) ∧ Lawful key past

theorem phaseOf_of_other {key : PeerKey} {e : Entry} (h : e.what.concerns key = false)
    (past : List Entry) : phaseOf key (e :: past) = phaseOf key past := by
  rw [phaseOf, h]
  rfl

theorem phaseOf_of_concerns {key : PeerKey} {e : Entry} (h : e.what.concerns key = true)
    (past : List Entry) : phaseOf key (e :: past) = (phaseOf key past).after e := by
  rw [phaseOf, h]
  rfl

theorem lawful_of_other {key : PeerKey} {e : Entry} (h : e.what.concerns key = false)
    {past : List Entry} (l : Lawful key past) : Lawful key (e :: past) :=
  ⟨fun hc => absurd (h.symm.trans hc) (by decide), l⟩

/-- Each part of a lawful record is lawful. -/
theorem allowed_of_lawful {key : PeerKey} {e : Entry} {later past : List Entry}
    (l : Lawful key (later ++ e :: past)) (h : e.what.concerns key = true) : Allowed key past e := by
  induction later with
  | nil => exact l.1 h
  | cons x rest ih => exact ih l.2

/-- Counters are reset, and failed peers restored, in a cycle that lists the peer. -/
theorem lists_of_allowed {key k : PeerKey} {time : Nat} {past : List Entry} {what : Happening}
    (back : what = .reset k ∨ ∃ reset, what = .restored k reset)
    (h : Allowed key past ⟨time, what⟩) : Lists past key := by
  unfold Allowed at h
  rcases back with rfl | ⟨reset, rfl⟩
  · cases hp : phaseOf key past <;> rw [hp] at h
    · cases h
    · exact h
    · cases h
  · cases hp : phaseOf key past <;> rw [hp] at h
    · cases h
    · cases h
    · exact h.2

/-! ## The record and the members -/

/-- The record of a peer is lawful and tells what the peer is. -/
structure Recorded (s : Situation) (key : PeerKey) : Prop where
  lawful : Lawful key s.members.history
  untracked : s.members.slots.find? key = none → phaseOf key s.members.history = .untracked
  healthy : ∀ slot, s.members.slots.find? key = some slot →
    slot.peer.failed = false ∨ Reporting s.frames key → phaseOf key s.members.history = .healthy
  failed : ∀ slot t, Waiting s key slot t → ∃ time delay,
    phaseOf key s.members.history = .failed time delay ∧ t.due = Clock.after time delay

/-- The record is lawful and tells what is the case. -/
structure Chronicle (s : Situation) : Prop where
  peers : ∀ key, Recorded s key
  cycle : ∀ candidates, .cycling candidates ∈ s.frames → cycle? s.members.history = some candidates
  due : ∀ t ∈ s.members.timers, s.members.now ≤ t.due

namespace Recorded

variable {s s' : Situation} {key : PeerKey}

/-- Nothing has become of this peer. -/
theorem congr (h : Recorded s key)
    (slots : s'.members.slots.find? key = s.members.slots.find? key)
    (timers : s'.members.timersOf key = s.members.timersOf key)
    (frames : Reporting s'.frames key ↔ Reporting s.frames key)
    (phase : phaseOf key s'.members.history = phaseOf key s.members.history)
    (lawful : Lawful key s.members.history → Lawful key s'.members.history) : Recorded s' key where
  lawful := lawful h.lawful
  untracked hs := phase.trans (h.untracked (slots ▸ hs))
  healthy slot hs hf := phase.trans (h.healthy slot (slots ▸ hs) (hf.imp_right frames.1))
  failed slot t w := by
    rw [phase]
    exact h.failed slot t (w.congr slots.symm timers.symm frames.2)

/-- Something has become of another peer. -/
theorem other (h : Recorded s key) {e : Entry} (hc : e.what.concerns key = false)
    (history : s'.members.history = e :: s.members.history)
    (slots : s'.members.slots.find? key = s.members.slots.find? key)
    (timers : s'.members.timersOf key = s.members.timersOf key)
    (frames : Reporting s'.frames key ↔ Reporting s.frames key) : Recorded s' key := by
  refine h.congr slots timers frames ?_ ?_
  · rw [history, phaseOf_of_other hc]
  · intro l
    rw [history]
    exact lawful_of_other hc l

/-- The peer is not tracked any more. -/
theorem of_untracked (lawful : Lawful key s.members.history)
    (slots : s.members.slots.find? key = none)
    (phase : phaseOf key s.members.history = .untracked) : Recorded s key := by
  refine ⟨lawful, fun _ => phase, ?_, ?_⟩
  · intro slot hs
    rw [slots] at hs
    cases hs
  · intro slot t w
    have hs := w.tracked
    rw [slots] at hs
    cases hs

/-- The peer is healthy, or its failure is being reported. -/
theorem of_healthy {slot : Slot} (lawful : Lawful key s.members.history)
    (slots : s.members.slots.find? key = some slot)
    (healthy : slot.peer.failed = false ∨ Reporting s.frames key)
    (phase : phaseOf key s.members.history = .healthy) : Recorded s key := by
  refine ⟨lawful, ?_, fun _ _ _ => phase, ?_⟩
  · intro hs
    rw [slots] at hs
    cases hs
  · intro slot' t w
    obtain rfl := Option.some.inj (slots.symm.trans w.tracked)
    rcases healthy with hf | hr
    · exact absurd (hf.symm.trans w.failed) (by decide)
    · exact absurd hr w.told

end Recorded

theorem reporting_cons {f : Frame} {fs : List Frame} {key : PeerKey} :
    Reporting (f :: fs) key ↔ (∃ slot delay, f = .failing key slot delay) ∨ Reporting fs key := by
  unfold Reporting
  simp only [List.mem_cons]
  constructor
  · rintro ⟨slot, delay, h | h⟩
    · exact .inl ⟨slot, delay, h.symm⟩
    · exact .inr ⟨slot, delay, h⟩
  · rintro (⟨slot, delay, h⟩ | ⟨slot, delay, h⟩)
    · exact ⟨slot, delay, .inl h.symm⟩
    · exact ⟨slot, delay, .inr h⟩

namespace Chronicle

variable {s s' : Situation}

/-- Nobody is concerned, and the cycles are as before. -/
theorem congr (h : Chronicle s) (slots : s'.members.slots = s.members.slots)
    (timers : s'.members.timers = s.members.timers) (now : s'.members.now = s.members.now)
    (history : s'.members.history = s.members.history)
    (frames : ∀ key, Reporting s'.frames key ↔ Reporting s.frames key)
    (cycles : ∀ candidates, .cycling candidates ∈ s'.frames → .cycling candidates ∈ s.frames) :
    Chronicle s' where
  peers key := (h.peers key).congr (by rw [slots]) (by rw [timersOf, timers]; rfl) (frames key)
    (by rw [history]) (by rw [history]; exact id)
  cycle candidates hc := by
    rw [history]
    exact h.cycle candidates (cycles candidates hc)
  due t ht := by
    rw [now]
    exact h.due t (timers ▸ ht)

/-- One peer is concerned. Cycles are as before, and timers at most fewer. -/
theorem local_change (h : Chronicle s) (key : PeerKey) {e : Entry}
    (peer : Recorded s' key)
    (history : s'.members.history = e :: s.members.history)
    (concerns : ∀ k, k ≠ key → e.what.concerns k = false)
    (cycle : cycle? (e :: s.members.history) = cycle? s.members.history)
    (slots : ∀ k, k ≠ key → s'.members.slots.find? k = s.members.slots.find? k)
    (timers : ∀ k, k ≠ key → s'.members.timersOf k = s.members.timersOf k)
    (frames : ∀ k, k ≠ key → (Reporting s'.frames k ↔ Reporting s.frames k))
    (cycles : ∀ candidates, .cycling candidates ∈ s'.frames → .cycling candidates ∈ s.frames)
    (due : ∀ t ∈ s'.members.timers, s'.members.now ≤ t.due) : Chronicle s' where
  peers k := by
    by_cases hk : k = key
    · exact hk ▸ peer
    · exact (h.peers k).other (concerns k hk) history (slots k hk) (timers k hk) (frames k hk)
  cycle candidates hc := by
    rw [history, cycle]
    exact h.cycle candidates (cycles candidates hc)
  due := due

/-- A failed peer whose failure is not being reported waits, and the record says until when. -/
theorem waiting (h : Chronicle s) (sound : Sound s) {key : PeerKey} {slot : Slot}
    (hs : s.members.slots.find? key = some slot) (hf : slot.peer.failed = true)
    (hr : ¬ Reporting s.frames key) : ∃ time delay,
      phaseOf key s.members.history = .failed time delay ∧
        s.members.now ≤ Clock.after time delay := by
  obtain ⟨t, w⟩ := sound.waiting_of_failed hs hf hr
  obtain ⟨time, delay, hphase, hdue⟩ := (h.peers key).failed slot t w
  have ht : t ∈ s.members.timers := by
    have hm : t ∈ s.members.timersOf key := by rw [w.alone]; exact List.mem_singleton_self t
    exact (mem_timersOf.1 hm).1
  exact ⟨time, delay, hphase, hdue ▸ h.due t ht⟩

theorem due_step (h : Chronicle s) (st : Step s s') :
    ∀ t ∈ s'.members.timers, s'.members.now ≤ t.due := by
  intro t ht
  rw [st.fixed.2.2.1]
  rcases st.timers.2 t ht with ht | ⟨-, hdue, -⟩
  · exact h.due t ht
  · exact hdue

theorem fail {fs : List Frame} {m : Members} (h : Chronicle ⟨fs, m⟩) {key : PeerKey} {slot : Slot}
    (hs : m.slots.find? key = some slot) (hh : slot.peer.failed = false) :
    Chronicle ⟨.failing key (m.failedSlot slot) (m.noteFailure slot.peer).1 :: fs,
      record (.removed key) (m.setSlot key (m.failedSlot slot))⟩ where
  peers k := by
    by_cases hk : k = key
    · subst hk
      exact .of_healthy (h.peers k).lawful ((KeyMap.find?_insert _ _ _ _).trans (if_pos rfl))
        (.inr ⟨_, _, List.mem_cons_self⟩) ((h.peers k).healthy slot hs (.inl hh))
    · refine (h.peers k).congr ((KeyMap.find?_insert _ _ _ _).trans (if_neg hk)) rfl ?_ rfl id
      rw [reporting_cons]
      refine or_iff_right ?_
      rintro ⟨_, _, he⟩
      cases he
      exact hk rfl
  cycle candidates hc := h.cycle candidates ((List.mem_cons.1 hc).resolve_left (fun hne => by cases hne))
  due := h.due

theorem settle {fs : List Frame} {m : Members} {key : PeerKey} {slot : Slot} {delay : Duration}
    (h : Chronicle ⟨.failing key slot delay :: fs, m⟩)
    (sound : Sound ⟨.failing key slot delay :: fs, m⟩) :
    Chronicle ⟨fs, ((m.count Tally.removed).afterFailure key slot.peer delay).2⟩ := by
  obtain ⟨hs, hf⟩ := sound.failing key slot delay List.mem_cons_self
  have phase : phaseOf key m.history = .healthy :=
    (h.peers key).healthy slot hs (.inr ⟨_, _, List.mem_cons_self⟩)
  have quiet : ¬ Reporting fs key := fun ⟨_, _, hm⟩ => sound.ne_of_failing hm rfl
  have frames : ∀ k, k ≠ key → (Reporting fs k ↔ Reporting (.failing key slot delay :: fs) k) :=
    fun k hk => by
      rw [reporting_cons]
      refine (or_iff_right ?_).symm
      rintro ⟨_, _, he⟩
      cases he
      exact hk rfl
  have history := sound.settle_history
  have lawful := (h.peers key).lawful
  refine h.local_change key ?_ history ?_ ?_ ?_ ?_ frames (fun candidates => List.mem_cons_of_mem _)
    (h.due_step .settle)
  · cases he : m.policy.isExhausted slot.peer.failures with
    | true =>
      rw [he, if_pos rfl] at history
      have concerns : (Happening.excluded key).concerns key = true := by simp [Happening.concerns]
      refine .of_untracked ?_ ?_ ?_
      · rw [history]
        exact ⟨fun _ => by simp [Allowed, phase], lawful⟩
      · rw [sound.settle_find?, if_pos rfl, he, if_pos rfl]
      · rw [history, phaseOf_of_concerns concerns]
        rfl
    | false =>
      rw [he] at history
      have concerns : (Happening.scheduled key delay slot.peer.sustained).concerns key = true := by
        simp [Happening.concerns]
      refine ⟨?_, ?_, ?_, ?_⟩
      · rw [history]
        exact ⟨fun _ => by simp [Allowed, phase], lawful⟩
      · intro hn
        rw [sound.settle_find?, if_pos rfl, he] at hn
        cases hn
      · intro slot' hs' hor
        rw [sound.settle_find?, if_pos rfl, he] at hs'
        obtain rfl := Option.some.inj hs'
        rcases hor with hh | hr
        · exact absurd (hf.symm.trans hh) (by decide)
        · exact absurd hr quiet
      · intro slot' t w
        refine ⟨m.now, delay, ?_, ?_⟩
        · rw [history]
          exact phaseOf_of_concerns concerns _
        · have halone := w.alone
          rw [sound.settle_timersOf, if_pos ⟨rfl, he⟩] at halone
          rw [← List.cons.inj halone |>.1]
  · intro k hk
    cases m.policy.isExhausted slot.peer.failures <;> simp [Happening.concerns, Ne.symm hk]
  · cases m.policy.isExhausted slot.peer.failures <;> rfl
  · intro k hk
    rw [sound.settle_find?, if_neg hk]
  · intro k hk
    rw [sound.settle_timersOf, if_neg fun hand => hk hand.1]

/-- A peer becomes healthy, or stays so. -/
theorem put_healthy (h : Chronicle s) (key : PeerKey) {slot : Slot} {e : Entry}
    (allowed : Allowed key s.members.history e)
    (phase : (phaseOf key s.members.history).after e = .healthy)
    (concerns : ∀ k, e.what.concerns k = (key == k))
    (history : s'.members.history = e :: s.members.history)
    (cycle : cycle? (e :: s.members.history) = cycle? s.members.history)
    (slots : s'.members.slots = s.members.slots.insert key slot)
    (healthy : slot.peer.failed = false)
    (timers : ∀ k, k ≠ key → s'.members.timersOf k = s.members.timersOf k)
    (frames : ∀ k, Reporting s'.frames k ↔ Reporting s.frames k)
    (cycles : ∀ candidates, .cycling candidates ∈ s'.frames → .cycling candidates ∈ s.frames)
    (st : Step s s') : Chronicle s' := by
  have hc : e.what.concerns key = true := by simp [concerns]
  refine h.local_change key ?_ history (fun k hk => by simp [concerns, Ne.symm hk]) cycle
    ?_ timers (fun k _ => frames k) cycles (h.due_step st)
  · refine .of_healthy ?_ ((slots ▸ KeyMap.find?_insert _ _ _ _).trans (if_pos rfl)) (.inl healthy) ?_
    · rw [history]
      exact ⟨fun _ => allowed, (h.peers key).lawful⟩
    · rw [history, phaseOf_of_concerns hc, phase]
  · intro k hk
    rw [slots, KeyMap.find?_insert, if_neg hk]

/-- A peer is not tracked any more. -/
theorem drop_peer {m m' : Members} {candidates : KeyMap Record} {fs : List Frame} {key : PeerKey}
    {slot : Slot} (h : Chronicle ⟨[.cycling candidates], m⟩)
    (sound : Sound ⟨[.cycling candidates], m⟩) (hs : m.slots.find? key = some slot)
    (unlisted : candidates.find? key = none)
    (slots : m'.slots = m.slots.erase key) (timers : m'.timers = (m.dropTimer slot.timer).timers)
    (history : m'.history = ⟨m.now, .dropped key⟩ :: m.history)
    (frames : ∀ k, ¬ Reporting fs k)
    (cycles : ∀ candidates', .cycling candidates' ∈ fs → candidates' = candidates)
    (st : Step ⟨[.cycling candidates], m⟩ ⟨fs, m'⟩) : Chronicle ⟨fs, m'⟩ := by
  have calm : ∀ k, ¬ Reporting [.cycling candidates] k := fun k ⟨_, _, hm⟩ => by
    cases List.mem_singleton.1 hm
  have omits : Omits m.history key :=
    ⟨candidates, h.cycle _ List.mem_cons_self, by simp [KeyMap.contains, unlisted]⟩
  have concerns : (Happening.dropped key).concerns key = true := by simp [Happening.concerns]
  have allowed : Allowed key m.history ⟨m.now, .dropped key⟩ := by
    cases hf : slot.peer.failed with
    | false =>
      have phase := (h.peers key).healthy slot hs (.inl hf)
      simpa [Allowed, phase] using omits
    | true =>
      obtain ⟨time, delay, phase, hdue⟩ := h.waiting sound hs hf (calm key)
      have phase' : phaseOf key m.history = .failed time delay := phase
      simpa [Allowed, phase'] using ⟨hdue, omits⟩
  refine h.local_change key (.of_untracked ?_ ?_ ?_) history (fun k hk => by simp
    [Happening.concerns, Ne.symm hk]) rfl ?_ ?_ (fun k _ => iff_of_false (frames k) (calm k)) ?_
    (h.due_step st)
  · show Lawful key m'.history
    rw [history]
    exact ⟨fun _ => allowed, (h.peers key).lawful⟩
  · show m'.slots.find? key = none
    rw [slots, KeyMap.find?_erase, if_pos rfl]
  · show phaseOf key m'.history = .untracked
    rw [history, phaseOf_of_concerns concerns]
    rfl
  · intro k hk
    show m'.slots.find? k = _
    rw [slots, KeyMap.find?_erase, if_neg hk]
  · intro k hk
    show m'.timersOf k = m.timersOf k
    rw [timersOf, timers]
    exact (sound.timersOf_dropTimer hs k).trans (if_neg hk)
  · intro c hc
    rw [cycles c hc]
    exact List.mem_cons_self

/-- The record of a directory plays no part. -/
theorem refresh {m : Members} {fs : List Frame} {slot : Slot} {r : Record}
    (h : Chronicle ⟨fs, m⟩) (hs : m.slots.find? r.key = some slot) :
    Chronicle ⟨fs, m.setSlot r.key { slot with peer := { slot.peer with record := r } }⟩ := by
  have hput : ∀ k, (m.setSlot r.key { slot with peer := { slot.peer with record := r } }).slots.find? k =
      if k = r.key then some { slot with peer := { slot.peer with record := r } }
      else m.slots.find? k := fun k => KeyMap.find?_insert _ _ _ _
  refine ⟨?_, h.cycle, h.due⟩
  intro k
  by_cases hk : k = r.key
  · subst hk
    have peer := h.peers r.key
    refine ⟨peer.lawful, ?_, ?_, ?_⟩
    · intro hn
      rw [hput, if_pos rfl] at hn
      cases hn
    · intro slot' hs' hor
      rw [hput, if_pos rfl] at hs'
      obtain rfl := Option.some.inj hs'
      exact peer.healthy slot hs hor
    · intro slot' t w
      have hs' := w.tracked
      rw [hput, if_pos rfl] at hs'
      obtain rfl := Option.some.inj hs'
      exact peer.failed slot t ⟨hs, w.failed, w.told, w.timer, w.pending, w.epoch, w.alone⟩
  · exact (h.peers k).congr ((hput k).trans (if_neg hk)) rfl Iff.rfl rfl id

theorem step (h : Chronicle s) (sound : Sound s) (st : Step s s') : Chronicle s' := by
  have whole := st
  cases st with
  | aside journal reactions used => exact h.congr rfl rfl rfl rfl (fun _ => Iff.rfl) fun _ => id
  | reply reply => exact h.congr rfl rfl rfl rfl (fun _ => Iff.rfl) fun _ => id
  | count hf => exact h.congr rfl rfl rfl rfl (fun _ => Iff.rfl) fun _ => id
  | fail tracked healthy => exact h.fail tracked healthy
  | settle => exact h.settle sound
  | @reconnect m slot t armed due tracked failed =>
    obtain ⟨slot', w⟩ := sound.held armed
    obtain ⟨time, delay, phase, hdue⟩ := (h.peers t.key).failed slot' t w
    have phase' : phaseOf t.key m.history = .failed time delay := phase
    refine h.put_healthy t.key ?_ rfl (fun k => rfl) rfl rfl rfl rfl ?_ (fun k => by simp
      [reporting_cons]) (fun c hc => by simp at hc) whole
    · show Allowed t.key m.history ⟨m.now, .reconnected t.key⟩
      simpa [Allowed, phase'] using due.symm.trans hdue
    · intro k hk
      exact timersOf_dropTimer_of_ne sound.ids armed hk
  | reconnected =>
    exact h.congr rfl rfl rfl rfl (fun _ => by simp [reporting_cons]) fun _ => List.mem_cons_of_mem _
  | @enter m candidates own =>
    have calm : ∀ k, Reporting [.cycling candidates] k ↔ Reporting [] k := fun k => by
      simp [reporting_cons]
    refine ⟨fun k => (h.peers k).other rfl rfl rfl rfl (calm k), ?_, h.due⟩
    intro c hc
    cases List.mem_singleton.1 hc
    rfl
  | @leave m candidates =>
    have calm : ∀ k, Reporting [] k ↔ Reporting [.cycling candidates] k := fun k => by
      simp [reporting_cons]
    exact ⟨fun k => (h.peers k).other rfl rfl rfl rfl (calm k), fun c hc => (by cases hc), h.due⟩
  | @withdraw m candidates key slot tracked healthy unlisted =>
    exact h.drop_peer sound tracked unlisted rfl rfl rfl (fun k => by simp [Reporting])
      (fun c hc => by simpa using hc) whole
  | withdrawn =>
    exact h.congr rfl rfl rfl rfl (fun _ => by simp [reporting_cons]) fun _ => List.mem_cons_of_mem _
  | @drop m candidates key slot tracked failed unlisted =>
    exact h.drop_peer sound tracked unlisted rfl rfl rfl (fun k => by simp [Reporting])
      (fun c hc => by simpa using hc) whole
  | @restore m candidates slot r tracked failed listed =>
    have calm : ¬ Reporting [.cycling candidates] r.key := by simp [Reporting]
    have lists : Lists m.history r.key :=
      ⟨candidates, h.cycle _ List.mem_cons_self, by simp [KeyMap.contains, listed]⟩
    obtain ⟨time, delay, phase, hdue⟩ := h.waiting sound tracked failed calm
    have phase' : phaseOf r.key m.history = .failed time delay := phase
    refine h.put_healthy r.key ?_ rfl (fun k => rfl) rfl rfl rfl ?_ ?_ (fun k => by simp
      [reporting_cons]) (fun c hc => by simpa using hc) whole
    · simpa [Allowed, phase'] using ⟨hdue, lists⟩
    · unfold restoredPeer
      rfl
    · intro k hk
      exact (sound.timersOf_dropTimer tracked k).trans (if_neg hk)
  | @reset m candidates slot r tracked healthy listed sustained =>
    have lists : Lists m.history r.key :=
      ⟨candidates, h.cycle _ List.mem_cons_self, by simp [KeyMap.contains, listed]⟩
    have phase : phaseOf r.key m.history = .healthy :=
      (h.peers r.key).healthy slot tracked (.inl healthy)
    refine h.put_healthy r.key ?_ ?_ (fun k => rfl) rfl rfl rfl healthy (fun _ _ => rfl)
      (fun _ => Iff.rfl) (fun _ => id) whole
    · simpa [Allowed, phase] using lists
    · show Phase.after (phaseOf r.key m.history) _ = _
      rw [phase]
      rfl
  | refresh tracked listed => exact h.refresh tracked
  | @enlist m candidates r running admitted untracked listed =>
    have lists : Lists m.history r.key :=
      ⟨candidates, h.cycle _ List.mem_cons_self, by simp [KeyMap.contains, listed]⟩
    have phase : phaseOf r.key m.history = .untracked := (h.peers r.key).untracked untracked
    refine h.put_healthy r.key ?_ rfl (fun k => rfl) rfl rfl rfl rfl (fun _ _ => rfl)
      (fun k => by simp [reporting_cons]) (fun c hc => by simpa using hc) whole
    simpa [Allowed, phase] using lists
  | announced =>
    exact h.congr rfl rfl rfl rfl (fun _ => by simp [reporting_cons]) fun _ => List.mem_cons_of_mem _

theorem close {m : Members} (h : Chronicle ⟨[], m⟩) (sound : Sound ⟨[], m⟩) :
    Chronicle ⟨[], m.close⟩ where
  peers key := by
    refine .of_untracked ⟨?_, (h.peers key).lawful⟩ rfl rfl
    intro _
    cases hs : m.slots.find? key with
    | none =>
      have phase := (h.peers key).untracked hs
      simp [Allowed, phase]
    | some slot =>
      cases hf : slot.peer.failed with
      | false =>
        have phase := (h.peers key).healthy slot hs (.inl hf)
        simp [Allowed, phase]
      | true =>
        obtain ⟨time, delay, phase, hdue⟩ := h.waiting sound hs hf (by simp [Reporting])
        simpa [Allowed, phase] using hdue
  cycle candidates hc := by cases hc
  due t ht := h.due t (List.mem_filter.1 ht).1

theorem lasting : Lasting Chronicle where
  step sound h st := h.step sound st
  pass _ _ h _ due _ := ⟨fun key => (h.peers key).congr rfl rfl Iff.rfl rfl id, h.cycle, due⟩
  pardon _ h := ⟨fun k => (h.peers k).other rfl rfl rfl rfl Iff.rfl, fun _ hc => (by cases hc), h.due⟩
  close sound h := h.close sound

/-- What a peer is, going by the slots and going by the record. -/
theorem standing {m : Members} (h : Chronicle ⟨[], m⟩) (sound : Sound ⟨[], m⟩) (key : PeerKey) :
    (m.slots.find? key = none ∧ phaseOf key m.history = .untracked) ∨
    (∃ slot, m.slots.find? key = some slot ∧ slot.peer.failed = false ∧
      phaseOf key m.history = .healthy) ∨
    ∃ slot t time delay, Waiting ⟨[], m⟩ key slot t ∧ phaseOf key m.history = .failed time delay ∧
      t.due = Clock.after time delay := by
  have peer := h.peers key
  cases hs : m.slots.find? key with
  | none => exact .inl ⟨rfl, peer.untracked hs⟩
  | some slot =>
    cases hf : slot.peer.failed with
    | false => exact .inr (.inl ⟨slot, rfl, hf, peer.healthy slot hs (.inl hf)⟩)
    | true =>
      obtain ⟨t, w⟩ := sound.waiting_of_failed hs hf (not_reporting_nil key)
      obtain ⟨time, delay, phase, hdue⟩ := peer.failed slot t w
      exact .inr (.inr ⟨slot, t, time, delay, w, phase, hdue⟩)

/-- A peer that is untracked going by the record is not tracked. -/
theorem untracked_of_phase {m : Members} (h : Chronicle ⟨[], m⟩) (sound : Sound ⟨[], m⟩)
    {key : PeerKey} (phase : phaseOf key m.history = .untracked) : m.slots.find? key = none := by
  rcases h.standing sound key with ⟨hs, -⟩ | ⟨_, -, -, phase'⟩ | ⟨_, _, _, _, -, phase', -⟩
  · exact hs
  · cases phase.symm.trans phase'
  · cases phase.symm.trans phase'

/-- A peer that is healthy going by the record is tracked and healthy. -/
theorem healthy_of_phase {m : Members} (h : Chronicle ⟨[], m⟩) (sound : Sound ⟨[], m⟩)
    {key : PeerKey} (phase : phaseOf key m.history = .healthy) :
    ∃ slot, m.slots.find? key = some slot ∧ slot.peer.failed = false := by
  rcases h.standing sound key with ⟨-, phase'⟩ | ⟨slot, hs, hf, -⟩ | ⟨_, _, _, _, -, phase', -⟩
  · cases phase.symm.trans phase'
  · exact ⟨slot, hs, hf⟩
  · cases phase.symm.trans phase'

/-- A peer that failed going by the record waits for its timer, which is not late. -/
theorem waiting_of_phase {m : Members} (h : Chronicle ⟨[], m⟩) (sound : Sound ⟨[], m⟩)
    {key : PeerKey} {time : Nat} {delay : Duration}
    (phase : phaseOf key m.history = .failed time delay) :
    ∃ slot t, Waiting ⟨[], m⟩ key slot t ∧ t.due = Clock.after time delay ∧
      m.now ≤ Clock.after time delay := by
  rcases h.standing sound key with ⟨-, phase'⟩ | ⟨_, -, -, phase'⟩ | ⟨slot, t, _, _, w, phase', hdue⟩
  · cases phase.symm.trans phase'
  · cases phase.symm.trans phase'
  · obtain ⟨rfl, rfl⟩ := Phase.failed.inj (phase'.symm.trans phase)
    have hmem : t ∈ m.timersOf key := w.alone ▸ List.mem_singleton_self t
    exact ⟨slot, t, w, hdue, hdue ▸ h.due t (mem_timersOf.1 hmem).1⟩

theorem initial (policy : Policy) (delay : Duration) (reactions : List Reaction) :
    Chronicle ⟨[], .initial policy delay reactions⟩ :=
  ⟨fun _ => .of_untracked trivial rfl rfl, fun _ hc => (by cases hc), fun _ ht => (by cases ht)⟩

end Chronicle

end Roster
