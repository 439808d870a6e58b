import Roster.Proofs.Chronicle

/-!
# Proofs.Timers — a failed peer has one timer, and its failure comes to one end in time

* `Ends`: what ends a failure. `failure_ends`: the first thing to become of a failed peer does.
* `announcement_of_failure`: a peer comes back from one failure once.
* `addedAt`, `broughtBackAt`: the listener hears of a peer exactly when the record says so.
* `failed_peers_have_one_timer`: all of it, wherever discovery can be.
-/

namespace Roster

open Members Relation

/-! ## The end of a failure -/

/-- The entry ends a failure: the timer goes off at the deadline, or before it a cycle that lists the
peer restores it, a cycle that does not list it drops it, or everything is over. -/
def Ends (key : PeerKey) (deadline : Nat) (past : List Entry) (e : Entry) : Prop :=
  match e.what with
  | .reconnected _ => e.time = deadline
  | .restored _ _ => e.time ≤ deadline ∧ Lists past key
  | .dropped _ => e.time ≤ deadline ∧ Omits past key
  | .closed => e.time ≤ deadline
  | _ => False

theorem ends_of_allowed {key : PeerKey} {past : List Entry} {e : Entry} {time : Nat}
    {delay : Duration} (phase : phaseOf key past = .failed time delay) (h : Allowed key past e) :
    Ends key (Clock.after time delay) past e := by
  unfold Allowed at h
  rw [phase] at h
  unfold Ends
  split <;> simp_all

/-- **A failure lasts, or has come to its end in time.** After a failure is on record, either nothing
has become of the peer, or the first thing that has ended the failure. -/
theorem failure_ends {key : PeerKey} {time : Nat} {delay : Duration} {counted : Bool}
    {before : List Entry} (after : List Entry)
    (l : Lawful key (after ++ ⟨time, .scheduled key delay counted⟩ :: before)) :
    ((∀ x ∈ after, x.what.concerns key = false) ∧
      phaseOf key (after ++ ⟨time, .scheduled key delay counted⟩ :: before) = .failed time delay) ∨
    ∃ later e quiet, after = later ++ e :: quiet ∧ (∀ x ∈ quiet, x.what.concerns key = false) ∧
      e.what.concerns key = true ∧ Ends key (Clock.after time delay)
        (quiet ++ ⟨time, .scheduled key delay counted⟩ :: before) e := by
  induction after with
  | nil =>
    refine .inl ⟨fun x hx => (by cases hx), ?_⟩
    exact phaseOf_of_concerns (by simp [Happening.concerns]) _
  | cons x rest ih =>
    rcases ih l.2 with ⟨quiet, phase⟩ | ⟨later, e, quiet, hrest, hquiet, hconcerns, hends⟩
    · cases hx : x.what.concerns key with
      | false =>
        refine .inl ⟨?_, (phaseOf_of_other hx _).trans phase⟩
        intro y hy
        rcases List.mem_cons.1 hy with rfl | hy
        · exact hx
        · exact quiet y hy
      | true => exact .inr ⟨[], x, rest, rfl, quiet, hx, ends_of_allowed phase (l.1 hx)⟩
    · exact .inr ⟨x :: later, e, quiet, by rw [hrest]; rfl, hquiet, hconcerns, hends⟩

/-- What the record says about a failed peer: it failed, and nothing has become of it since. -/
theorem scheduled_of_phase {key : PeerKey} {time : Nat} {delay : Duration} {past : List Entry}
    (l : Lawful key past) (phase : phaseOf key past = .failed time delay) :
    ∃ quiet counted before, past = quiet ++ ⟨time, .scheduled key delay counted⟩ :: before ∧
      ∀ x ∈ quiet, x.what.concerns key = false := by
  induction past with
  | nil => cases phase
  | cons x rest ih =>
    cases hx : x.what.concerns key with
    | false =>
      rw [phaseOf_of_other hx] at phase
      obtain ⟨quiet, counted, before, hrest, hquiet⟩ := ih l.2 phase
      refine ⟨x :: quiet, counted, before, by rw [hrest]; rfl, ?_⟩
      intro y hy
      rcases List.mem_cons.1 hy with rfl | hy
      · exact hx
      · exact hquiet y hy
    | true =>
      have allowed := l.1 hx
      rw [phaseOf_of_concerns hx] at phase
      obtain ⟨t, what⟩ := x
      unfold Phase.after at phase
      cases what with
      | scheduled k d counted =>
        obtain rfl : k = key := by simpa [Happening.concerns] using hx
        obtain ⟨rfl, rfl⟩ := Phase.failed.inj phase
        exact ⟨[], counted, rest, rfl, fun y hy => (by cases hy)⟩
      | reset k =>
        dsimp only at phase
        simp [Allowed, phase] at allowed
      | _ => first | cases phase | cases hx

/-- **A peer comes back from one failure once**: before it comes back it failed, and nothing has
become of it in between. -/
theorem announcement_of_failure {key : PeerKey} {e : Entry} {later past : List Entry}
    (l : Lawful key (later ++ e :: past))
    (back : e.what = .reconnected key ∨ ∃ reset, e.what = .restored key reset) :
    ∃ quiet time delay counted before,
      past = quiet ++ ⟨time, .scheduled key delay counted⟩ :: before ∧
        ∀ x ∈ quiet, x.what.concerns key = false := by
  induction later with
  | cons x rest ih => exact ih l.2
  | nil =>
    have hc : e.what.concerns key = true := by
      rcases back with h | ⟨reset, h⟩ <;> rw [h] <;> simp [Happening.concerns]
    have allowed := l.1 hc
    cases hp : phaseOf key past with
    | failed time delay =>
      obtain ⟨quiet, counted, before, hpast, hquiet⟩ := scheduled_of_phase l.2 hp
      exact ⟨quiet, time, delay, counted, before, hpast, hquiet⟩
    | untracked => rcases back with h | ⟨reset, h⟩ <;> simp [Allowed, h, hp] at allowed
    | healthy => rcases back with h | ⟨reset, h⟩ <;> simp [Allowed, h, hp] at allowed

/-! ## What the listener hears -/

/-- When the notice brought the peer into the view. -/
def Told.entry? (key : PeerKey) : Told → Option Nat
  | .notice time (.added record) => if record.key = key then some time else none
  | _ => none

/-- When the peer entered the view, going by the record. -/
def Entry.entry? (key : PeerKey) (e : Entry) : Option Nat :=
  match e.what with
  | .tracked k | .reconnected k | .restored k _ => if k = key then some e.time else none
  | _ => none

/-- The listener hears of a peer that enters the view exactly when the record says so. -/
def Members.Announced (m : Members) : Prop :=
  ∀ key, m.told.filterMap (Told.entry? key) = m.history.filterMap (Entry.entry? key)

namespace Members.Announced

theorem both {m m' : Members} (h : m.Announced) {x : Told} {e : Entry}
    (told : m'.told = x :: m.told) (history : m'.history = e :: m.history)
    (same : ∀ key, x.entry? key = e.entry? key) : m'.Announced := fun key => by
  rw [told, history, List.filterMap_cons, List.filterMap_cons, same, h key]

theorem noted {m m' : Members} (h : m.Announced) {e : Entry} (told : m'.told = m.told)
    (history : m'.history = e :: m.history) (silent : ∀ key, e.entry? key = none) :
    m'.Announced := fun key => by
  rw [told, history, List.filterMap_cons, silent, h key]

theorem step {s s' : Situation} (h : s.members.Announced) (sound : Sound s) (st : Step s s') :
    s'.members.Announced := by
  cases st with
  | aside journal reactions used => exact h
  | reply reply => exact h
  | count hf => exact h
  | fail tracked healthy => exact h
  | @settle fs m key slot delay =>
    obtain ⟨-, -, -, -, htold, -⟩ := afterFailure_fixed (m.count Tally.removed) key slot.peer delay
    refine h.noted htold sound.settle_history ?_
    intro k
    cases m.policy.isExhausted slot.peer.failures <;> rfl
  | reconnect t armed due tracked failed =>
    have hkey := (sound.own _ _ tracked).2.2.1
    refine h.both rfl rfl ?_
    intro k
    simp only [Told.entry?, Entry.entry?, hkey]
    rfl
  | reconnected => exact h
  | enter candidates own => exact h.noted rfl rfl fun _ => rfl
  | leave => exact h.noted rfl rfl fun _ => rfl
  | withdraw tracked healthy unlisted => exact h.both rfl rfl fun _ => rfl
  | withdrawn => exact h
  | drop tracked failed unlisted => exact h.noted rfl rfl fun _ => rfl
  | restore tracked failed listed => exact h.both rfl rfl fun _ => rfl
  | reset tracked healthy listed sustained => exact h.noted rfl rfl fun _ => rfl
  | refresh tracked listed => exact h
  | enlist running admitted untracked listed => exact h.both rfl rfl fun _ => rfl
  | announced => exact h

theorem lasting : Lasting fun s => s.members.Announced where
  step sound h st := h.step sound st
  pass _ _ h _ _ _ := h
  pardon _ h := h.noted rfl rfl fun _ => rfl
  close _ h := h.noted rfl rfl fun _ => rfl

end Members.Announced

/-! ## Ticks -/

/-- The clock stands at a whole tick, and did whenever something was put on record. -/
def Members.Ticking (m : Members) : Prop :=
  m.now % Clock.tick = 0 ∧ ∀ e ∈ m.history, e.time % Clock.tick = 0

theorem Members.Ticking.noted {m m' : Members} (h : m.Ticking) {what : Happening}
    (now : m'.now = m.now) (history : m'.history = ⟨m.now, what⟩ :: m.history) : m'.Ticking := by
  refine ⟨now ▸ h.1, ?_⟩
  intro e he
  rw [history] at he
  rcases List.mem_cons.1 he with rfl | he
  · exact h.1
  · exact h.2 e he

theorem ticking_lasting : Lasting fun s => s.members.Ticking where
  step {s s'} sound h st := by
    rcases st.history sound with hh | ⟨what, hh⟩
    · exact ⟨st.fixed.2.2.1 ▸ h.1, hh ▸ h.2⟩
    · exact h.noted st.fixed.2.2.1 hh
  pass _ _ h _ _ ticks := ⟨ticks, h.2⟩
  pardon _ h := h.noted rfl rfl
  close _ h := h.noted rfl rfl

/-! ## What a report of a failure answers -/

/-- A failure whose answer names a delay is on record with it. -/
theorem afterFailure_scheduled {m : Members} {key : PeerKey} {peer : Tracked} {delay d : Duration}
    {counted : Bool} {failures : UInt32}
    (h : (m.afterFailure key peer delay).1 = .scheduled d counted failures) :
    ∃ before, (m.afterFailure key peer delay).2.history = ⟨m.now, .scheduled key d counted⟩ :: before := by
  unfold afterFailure at h ⊢
  split at h
  · cases h
  · next hspared =>
    rw [if_neg hspared]
    cases h
    dsimp only
    split <;> exact ⟨_, rfl⟩

/-- A failure that is accepted is settled once the listener has heard of it. -/
theorem fail_settles {m : Members} (hp : m.Polite) {key : PeerKey}
    (tracked : (m.fail Members.tell key).1 ≠ .untracked)
    (healthy : (m.fail Members.tell key).1 ≠ .alreadyFailed) :
    ∃ (m' : Members) (peer : Tracked) (delay : Duration),
      m'.now = m.now ∧ m.fail Members.tell key = m'.afterFailure key peer delay := by
  unfold Members.fail at tracked healthy ⊢
  split
  · next hnone =>
    rw [hnone] at tracked
    exact absurd rfl tracked
  · next slot hs =>
    rw [hs] at healthy
    dsimp only at healthy ⊢
    split
    · next hfailed =>
      rw [if_pos hfailed] at healthy
      exact absurd rfl healthy
    · let failed := m.setSlot key { slot with peer := (m.noteFailure slot.peer).2 }
      have told := tell_tells [] (.removed key) failed hp
      exact ⟨(Members.tell (.removed key) failed).count Tally.removed, (m.noteFailure slot.peer).2,
        (m.noteFailure slot.peer).1, told.fixed.2.2.1, rfl⟩

theorem fail_scheduled {m : Members} (hp : m.Polite) {key : PeerKey} {d : Duration} {counted : Bool}
    {failures : UInt32} (h : (m.fail Members.tell key).1 = .scheduled d counted failures) :
    ∃ before, (m.fail Members.tell key).2.history = ⟨m.now, .scheduled key d counted⟩ :: before := by
  obtain ⟨m', peer, delay, hnow, heq⟩ := fail_settles hp (by rw [h]; nofun) (by rw [h]; nofun)
  rw [heq] at h ⊢
  rw [← hnow]
  exact afterFailure_scheduled h

/-! ## Discovery -/

namespace Engine

/-- **A failed peer has one timer, and its failure comes to one end in time.** A peer is failed if
and only if there is exactly one timer for its key. Every timer belongs to a failed peer: it carries
the epoch of the peer's slot, and it is due when the delay is over that the report of the failure was
answered with. From such a report on, either the peer is still failed, with a timer and in time, or
the failure has ended: by the timer exactly at the deadline, or not after it by a cycle that lists
the peer, by one that does not, or with everything. A peer comes back from one failure once, and the
listener hears of it at that time. -/
theorem failed_peers_have_one_timer {config : Config} {e : Engine} (h : Reachable config e) :
    (∀ key, (∃ peer, e.members.find? key = some peer ∧ peer.failed = true) ↔
      ∃ t, e.members.timersOf key = [t]) ∧
    (∀ t ∈ e.members.timers, ∃ slot, e.members.slots.find? t.key = some slot ∧
      slot.peer.failed = true ∧ slot.timer = some t.id ∧ t.epoch = slot.epoch ∧
      ∃ later time delay counted before,
        e.members.history = later ++ ⟨time, .scheduled t.key delay counted⟩ :: before ∧
        (∀ x ∈ later, x.what.concerns t.key = false) ∧ t.due = Clock.after time delay) ∧
    (∀ key, (∀ peer, e.members.find? key = some peer → peer.failed = false) →
      e.members.timersOf key = []) ∧
    (∀ key delay counted failures, (e.fail key).1 = .scheduled delay counted failures →
      ∃ before, (e.fail key).2.members.history = ⟨e.now, .scheduled key delay counted⟩ :: before) ∧
    (∀ key after time delay counted before,
      e.members.history = after ++ ⟨time, .scheduled key delay counted⟩ :: before →
      (delay.nanos % Clock.tick = 0 → time + delay.nanos < Clock.horizon →
        Clock.after time delay = time + delay.nanos) ∧
      (((∀ x ∈ after, x.what.concerns key = false) ∧ e.now ≤ Clock.after time delay ∧
          ∃ peer t, e.members.find? key = some peer ∧ peer.failed = true ∧
            e.members.timersOf key = [t] ∧ t.due = Clock.after time delay) ∨
        ∃ later x quiet, after = later ++ x :: quiet ∧
          (∀ y ∈ quiet, y.what.concerns key = false) ∧ x.what.concerns key = true ∧
          Ends key (Clock.after time delay)
            (quiet ++ ⟨time, .scheduled key delay counted⟩ :: before) x)) ∧
    (∀ key x later past, e.members.history = later ++ x :: past →
      (x.what = .reconnected key ∨ ∃ reset, x.what = .restored key reset) →
      ∃ quiet time delay counted before,
        past = quiet ++ ⟨time, .scheduled key delay counted⟩ :: before ∧
        ∀ y ∈ quiet, y.what.concerns key = false) ∧
    ∀ key, e.members.told.filterMap (Told.entry? key) =
      e.members.history.filterMap (Entry.entry? key) := by
  have ordered := h.orderly
  have sound := ordered.sound
  have chronicle : Chronicle ⟨[], e.members⟩ :=
    h.keeps Chronicle.lasting fun _ => Chronicle.initial _ _ _
  have ticking : e.members.Ticking := h.keeps ticking_lasting fun _ => ⟨rfl, by simp [initial]⟩
  have announced : e.members.Announced := h.keeps Members.Announced.lasting fun _ _ => rfl
  have found : ∀ key slot, e.members.slots.find? key = some slot →
      e.members.find? key = some slot.peer := fun key slot hs =>
    sound.find?_eq_some_iff.2 ⟨slot, hs, rfl⟩
  refine ⟨fun key => ⟨?_, ?_⟩, ?_, ?_, ?_, fun key after time delay counted before hist => ⟨?_, ?_⟩,
    ?_, announced⟩
  · rintro ⟨peer, hp, hf⟩
    obtain ⟨slot, hs, rfl⟩ := sound.find?_eq_some_iff.1 hp
    obtain ⟨t, w⟩ := sound.waiting_of_failed hs hf (not_reporting_nil key)
    exact ⟨t, w.alone⟩
  · rintro ⟨t, ht⟩
    obtain ⟨hmem, rfl⟩ := mem_timersOf.1 (ht ▸ List.mem_singleton_self t : t ∈ e.members.timersOf key)
    obtain ⟨slot, w⟩ := sound.held hmem
    exact ⟨slot.peer, found _ slot w.tracked, w.failed⟩
  · intro t ht
    obtain ⟨slot, w⟩ := sound.held ht
    have peer := chronicle.peers t.key
    obtain ⟨time, delay, phase, hdue⟩ := peer.failed slot t w
    obtain ⟨quiet, counted, before, hist, hquiet⟩ := scheduled_of_phase peer.lawful phase
    exact ⟨slot, w.tracked, w.failed, w.timer, w.epoch, quiet, time, delay, counted, before, hist,
      hquiet, hdue⟩
  · intro key hh
    refine List.eq_nil_iff_forall_not_mem.2 ?_
    intro t ht
    obtain ⟨hmem, rfl⟩ := mem_timersOf.1 ht
    obtain ⟨slot, w⟩ := sound.held hmem
    exact absurd ((hh _ (found _ slot w.tracked)).symm.trans w.failed) (by decide)
  · intro key delay counted failures hf
    exact fail_scheduled ordered.polite hf
  · intro hd hlt
    refine after_of_ticks (ticking.2 ⟨time, .scheduled key delay counted⟩ ?_) hd hlt
    rw [hist]
    simp
  · have lawful := (chronicle.peers key).lawful
    rw [hist] at lawful
    rcases failure_ends after lawful with ⟨quiet, phase⟩ | ended
    · rw [← hist] at phase
      obtain ⟨slot, t, w, hdue, late⟩ := chronicle.waiting_of_phase sound phase
      exact .inl ⟨quiet, late, slot.peer, t, found key slot w.tracked, w.failed, w.alone, hdue⟩
    · exact .inr ended
  · intro key x later past hist back
    exact announcement_of_failure (hist ▸ (chronicle.peers key).lawful) back

/-- A peer came back by its timer and failed again at once, so that it waits a second time. -/
theorem timer_after_second_failure : ∃ e,
    session .standard (.fixed ⟨[.plain "b" 0, .plain "a" 0]⟩) []
      [.turn .loop, .turn (.resume 0), .turn (.resume 0), .fail ⟨"a"⟩, .turn (.arm 0),
        .wait 1000000000, .turn (.fire 0), .fail ⟨"a"⟩] = some e ∧
    (∃ peer, e.members.find? ⟨"a"⟩ = some peer ∧ peer.failed = true) ∧
    (∃ t, e.members.timersOf ⟨"a"⟩ = [t] ∧ t.due = 2000000000) ∧
    e.members.timersOf ⟨"b"⟩ = [] ∧
    (∀ past later time, e.members.history = later ++ ⟨time, .reconnected ⟨"a"⟩⟩ :: past →
      ∃ quiet time delay counted before,
        past = quiet ++ ⟨time, .scheduled ⟨"a"⟩ delay counted⟩ :: before ∧
        ∀ y ∈ quiet, y.what.concerns ⟨"a"⟩ = false) := by
  obtain ⟨e, he, hp⟩ := (Option.any_eq_true _ _).1 (show
    (session .standard (.fixed ⟨[.plain "b" 0, .plain "a" 0]⟩) []
      [.turn .loop, .turn (.resume 0), .turn (.resume 0), .fail ⟨"a"⟩, .turn (.arm 0),
        .wait 1000000000, .turn (.fire 0), .fail ⟨"a"⟩]).any (fun e =>
          (e.members.find? ⟨"a"⟩).any (·.failed) && (e.members.find? ⟨"b"⟩).all (!·.failed) &&
            e.members.timers.all (·.due == 2000000000)) = true by decide +kernel)
  obtain ⟨hab, hdue⟩ := Bool.and_eq_true_iff.1 hp
  obtain ⟨ha, hb⟩ := Bool.and_eq_true_iff.1 hab
  obtain ⟨one, -, none, -, -, back, -⟩ :=
    failed_peers_have_one_timer (reachable_of_session (by simp) he)
  have failed := (Option.any_eq_true _ _).1 ha
  obtain ⟨t, ht⟩ := (one ⟨"a"⟩).1 failed
  have hmem : t ∈ e.members.timersOf ⟨"a"⟩ := ht ▸ List.mem_singleton_self t
  have due := List.all_eq_true.1 hdue t (mem_timersOf.1 hmem).1
  refine ⟨e, he, failed, ⟨t, ht, by simpa using due⟩, none _ ?_, fun past later time hist => back
    ⟨"a"⟩ _ later past hist (.inl rfl)⟩
  intro peer hpeer
  rw [hpeer] at hb
  simpa using hb

end Engine

end Roster
