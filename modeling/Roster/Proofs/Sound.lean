import Mathlib.Data.List.Nodup
import Roster.Proofs.Step

/-!
# Proofs.Sound — slots, exclusions and timers agree

* `Members.timersOf`: the armed timers of a peer.
* `Waiting`: a failed peer with its one timer. `Idle`: no timer, and nothing that waits for one.
* `Sound`: every peer is the one or the other, and slots are where they belong. `Sound.step`,
  `Sound.steps`: this never changes.
* `Lasting`: what else never changes, by one look at each step.
-/

namespace Roster

open Members

def Members.timersOf (m : Members) (key : PeerKey) : List Timer := m.timers.filter (·.key == key)

/-- The listener is being told that the peer failed. -/
def Reporting (frames : List Frame) (key : PeerKey) : Prop :=
  ∃ slot delay, Frame.failing key slot delay ∈ frames

/-- The peer failed, and `t` is the timer that will bring it back. -/
structure Waiting (s : Situation) (key : PeerKey) (slot : Slot) (t : Timer) : Prop where
  tracked : s.members.slots.find? key = some slot
  failed : slot.peer.failed = true
  told : ¬ Reporting s.frames key
  timer : slot.timer = some t.id
  pending : slot.peer.pending = true
  epoch : t.epoch = slot.epoch
  alone : s.members.timersOf key = [t]

/-- The peer has no timer. If it failed, the listener is being told so. -/
structure Idle (s : Situation) (key : PeerKey) : Prop where
  alone : s.members.timersOf key = []
  slot : ∀ slot, s.members.slots.find? key = some slot →
    slot.timer = none ∧ slot.peer.pending = false ∧
      (slot.peer.failed = true → Reporting s.frames key)

/-- Slots, exclusions and timers agree. -/
structure Sound (s : Situation) : Prop where
  own : ∀ key slot, s.members.slots.find? key = some slot →
    slot.evicted = false ∧ slot.peer.key = key ∧ slot.peer.record.key = key ∧
      s.members.isExcluded key = false
  failing : ∀ key slot delay, Frame.failing key slot delay ∈ s.frames →
    s.members.slots.find? key = some slot ∧ slot.peer.failed = true
  apart : s.frames.Pairwise fun a b => ∀ key slot delay slot' delay',
    a = .failing key slot delay → b ≠ .failing key slot' delay'
  closed : s.members.closed = true → ∀ key, s.members.slots.find? key = none
  timing : ∀ key, (∃ slot t, Waiting s key slot t) ∨ Idle s key
  ids : (s.members.timers.map (·.id)).Nodup
  fresh : ∀ t ∈ s.members.timers, t.id < s.members.armed

theorem not_reporting_nil (key : PeerKey) : ¬ Reporting [] key := by
  rintro ⟨slot, delay, hm⟩
  cases hm

/-! ## Timers of one peer -/

theorem mem_timersOf {m : Members} {key : PeerKey} {t : Timer} :
    t ∈ m.timersOf key ↔ t ∈ m.timers ∧ t.key = key := by
  simp [timersOf]

theorem timersOf_dropTimer (m : Members) (id : Option Nat) (key : PeerKey) :
    (m.dropTimer id).timersOf key = (m.timersOf key).filter fun t => some t.id != id := by
  simp only [timersOf, dropTimer, List.filter_filter]
  congr 1
  funext t
  exact Bool.and_comm _ _

@[simp] theorem timers_dropTimer_none (m : Members) : (m.dropTimer none).timers = m.timers := by
  simp [dropTimer]

/-- A timer of another peer stays when the timers with the id of `t` are dropped. -/
theorem timersOf_dropTimer_of_ne {m : Members} (ids : (m.timers.map (·.id)).Nodup) {t : Timer}
    (ht : t ∈ m.timers) {key : PeerKey} (h : key ≠ t.key) :
    (m.dropTimer (some t.id)).timersOf key = m.timersOf key := by
  rw [timersOf_dropTimer, List.filter_eq_self]
  intro u hu
  obtain ⟨hu, hk⟩ := mem_timersOf.1 hu
  have hne : u.id ≠ t.id := fun e => h (by rw [← hk, List.inj_on_of_nodup_map ids hu ht e])
  simpa using hne

/-! ## Situations that look alike -/

theorem Waiting.congr {s s' : Situation} {key : PeerKey} {slot : Slot} {t : Timer}
    (h : Waiting s key slot t) (hs : s'.members.slots.find? key = s.members.slots.find? key)
    (ht : s'.members.timersOf key = s.members.timersOf key)
    (hf : Reporting s'.frames key → Reporting s.frames key) : Waiting s' key slot t :=
  ⟨hs.trans h.tracked, h.failed, fun hr => h.told (hf hr), h.timer, h.pending, h.epoch,
    ht.trans h.alone⟩

theorem Idle.congr {s s' : Situation} {key : PeerKey} (h : Idle s key)
    (hs : s'.members.slots.find? key = s.members.slots.find? key)
    (ht : s'.members.timersOf key = s.members.timersOf key)
    (hf : Reporting s.frames key → Reporting s'.frames key) : Idle s' key :=
  ⟨ht.trans h.alone, fun slot hslot =>
    let ⟨h1, h2, h3⟩ := h.slot slot (hs ▸ hslot)
    ⟨h1, h2, fun hfail => hf (h3 hfail)⟩⟩

namespace Sound

variable {s s' : Situation}

/-- A healthy peer is idle. -/
theorem idle_of_healthy (h : Sound s) {key : PeerKey} {slot : Slot}
    (hs : s.members.slots.find? key = some slot) (hh : slot.peer.failed = false) : Idle s key := by
  rcases h.timing key with ⟨slot', t, w⟩ | i
  · have he : slot' = slot := Option.some.inj (w.tracked.symm.trans hs)
    rw [← he, w.failed] at hh
    exact absurd hh (by decide)
  · exact i

/-- A peer whose failure is being reported is idle. -/
theorem idle_of_reporting (h : Sound s) {key : PeerKey} (hr : Reporting s.frames key) :
    Idle s key := by
  rcases h.timing key with ⟨slot', t, w⟩ | i
  · exact absurd hr w.told
  · exact i

/-- A healthy peer is not being reported failed. -/
theorem not_reporting_of_healthy (h : Sound s) {key : PeerKey} {slot : Slot}
    (hs : s.members.slots.find? key = some slot) (hh : slot.peer.failed = false) :
    ¬ Reporting s.frames key := by
  rintro ⟨slot', delay, hm⟩
  obtain ⟨hs', hf⟩ := h.failing key slot' delay hm
  rw [← Option.some.inj (hs.symm.trans hs'), hh] at hf
  exact absurd hf (by decide)

/-- A failed peer outside of reports waits for its timer. -/
theorem waiting_of_failed (h : Sound s) {key : PeerKey} {slot : Slot}
    (hs : s.members.slots.find? key = some slot) (hf : slot.peer.failed = true)
    (hr : ¬ Reporting s.frames key) : ∃ t, Waiting s key slot t := by
  rcases h.timing key with ⟨slot', t, w⟩ | i
  · exact ⟨t, Option.some.inj (w.tracked.symm.trans hs) ▸ w⟩
  · exact absurd ((i.slot slot hs).2.2 hf) hr

/-- Dropping the timer of a slot leaves its peer without timers, and the others as they are. -/
theorem timersOf_dropTimer (h : Sound s) {key : PeerKey} {slot : Slot}
    (hs : s.members.slots.find? key = some slot) (key' : PeerKey) :
    (s.members.dropTimer slot.timer).timersOf key' =
      if key' = key then [] else s.members.timersOf key' := by
  rcases h.timing key with ⟨slot', t, w⟩ | i
  · have he : slot' = slot := Option.some.inj (w.tracked.symm.trans hs)
    subst he
    have ht : t ∈ s.members.timers ∧ t.key = key := mem_timersOf.1 (by rw [w.alone]; simp)
    rw [w.timer]
    split
    · next hk => rw [hk, Roster.timersOf_dropTimer, w.alone]; simp
    · next hk => exact timersOf_dropTimer_of_ne h.ids ht.1 (by rw [ht.2]; exact hk)
  · rw [(i.slot slot hs).1, Roster.timersOf_dropTimer]
    split
    · next hk => rw [hk, i.alone]; rfl
    · simp

/-- What no invariant looks at may change. -/
theorem congr (h : Sound s) (slots : s'.members.slots = s.members.slots)
    (excluded : ∀ key, s.members.isExcluded key = false → s'.members.isExcluded key = false)
    (closed : s'.members.closed = s.members.closed) (timers : s'.members.timers = s.members.timers)
    (armed : s'.members.armed = s.members.armed)
    (failing : ∀ key slot delay,
      Frame.failing key slot delay ∈ s'.frames ↔ Frame.failing key slot delay ∈ s.frames)
    (apart : s'.frames.Pairwise fun a b => ∀ key slot delay slot' delay',
      a = .failing key slot delay → b ≠ .failing key slot' delay') : Sound s' where
  own key slot hs := by
    obtain ⟨h1, h2, h3, h4⟩ := h.own key slot (slots ▸ hs)
    exact ⟨h1, h2, h3, excluded key h4⟩
  failing key slot delay hm := by
    rw [slots]
    exact h.failing key slot delay ((failing key slot delay).1 hm)
  apart := apart
  closed hc key := by
    rw [slots]
    exact h.closed (closed ▸ hc) key
  timing key := by
    have hs : s'.members.slots.find? key = s.members.slots.find? key := by rw [slots]
    have ht : s'.members.timersOf key = s.members.timersOf key := by rw [timersOf, timers]; rfl
    have hr : Reporting s'.frames key ↔ Reporting s.frames key := by
      simp only [Reporting, failing]
    exact (h.timing key).imp (fun ⟨slot, t, w⟩ => ⟨slot, t, w.congr hs ht hr.1⟩)
      (fun i => i.congr hs ht hr.2)
  ids := by rw [timers]; exact h.ids
  fresh t ht := by
    rw [armed]
    exact h.fresh t (timers ▸ ht)

/-- What is to be shown after a change that concerns one peer. -/
theorem local_change (h : Sound s) (key : PeerKey)
    (slots : ∀ k, k ≠ key → s'.members.slots.find? k = s.members.slots.find? k)
    (excluded : ∀ k, k ≠ key → s'.members.isExcluded k = s.members.isExcluded k)
    (timers : ∀ k, k ≠ key → s'.members.timersOf k = s.members.timersOf k)
    (failing : ∀ k, k ≠ key → ∀ slot delay,
      Frame.failing k slot delay ∈ s'.frames ↔ Frame.failing k slot delay ∈ s.frames)
    (apart : s'.frames.Pairwise fun a b => ∀ k slot delay slot' delay',
      a = .failing k slot delay → b ≠ .failing k slot' delay')
    (own : ∀ slot, s'.members.slots.find? key = some slot → slot.evicted = false ∧
      slot.peer.key = key ∧ slot.peer.record.key = key ∧ s'.members.isExcluded key = false)
    (report : ∀ slot delay, Frame.failing key slot delay ∈ s'.frames →
      s'.members.slots.find? key = some slot ∧ slot.peer.failed = true)
    (timing : (∃ slot t, Waiting s' key slot t) ∨ Idle s' key)
    (closed : s'.members.closed = true → s.members.closed = true ∧
      s'.members.slots.find? key = none)
    (ids : (s'.members.timers.map (·.id)).Nodup)
    (fresh : ∀ t ∈ s'.members.timers, t.id < s'.members.armed) : Sound s' where
  own k slot hs := by
    by_cases hk : k = key
    · subst hk; exact own slot hs
    · rw [slots k hk] at hs
      rw [excluded k hk]
      exact h.own k slot hs
  failing k slot delay hm := by
    by_cases hk : k = key
    · subst hk; exact report slot delay hm
    · rw [slots k hk]
      exact h.failing k slot delay ((failing k hk slot delay).1 hm)
  apart := apart
  closed hc k := by
    obtain ⟨hc', hnone⟩ := closed hc
    by_cases hk : k = key
    · subst hk; exact hnone
    · rw [slots k hk]
      exact h.closed hc' k
  timing k := by
    by_cases hk : k = key
    · subst hk; exact timing
    · have hr : Reporting s'.frames k ↔ Reporting s.frames k := by
        simp only [Reporting, failing k hk]
      exact (h.timing k).imp
        (fun ⟨slot, t, w⟩ => ⟨slot, t, w.congr (slots k hk) (timers k hk) hr.1⟩)
        (fun i => i.congr (slots k hk) (timers k hk) hr.2)
  ids := ids
  fresh := fresh

/-! ## Changes of one slot -/

/-- A slot without a timer is put in the place of `key`, and the timers of that peer go. -/
theorem put (h : Sound s) {key : PeerKey} (slot : Slot)
    (slots : s'.members.slots = s.members.slots.insert key slot)
    (excluded : s'.members.excluded = s.members.excluded)
    (closed : s'.members.closed = s.members.closed)
    (running : s.members.closed = false)
    (admitted : s.members.isExcluded key = false)
    (timers : ∀ k, s'.members.timersOf k = if k = key then [] else s.members.timersOf k)
    (fewer : s'.members.timers.Sublist s.members.timers)
    (armed : s'.members.armed = s.members.armed)
    (own : slot.evicted = false ∧ slot.peer.key = key ∧ slot.peer.record.key = key)
    (quiet : slot.timer = none ∧ slot.peer.pending = false)
    (failed : slot.peer.failed = true → Reporting s'.frames key)
    (failing : ∀ k slot' delay, Frame.failing k slot' delay ∈ s'.frames →
      (k = key ∧ slot' = slot ∧ slot.peer.failed = true) ∨
        k ≠ key ∧ Frame.failing k slot' delay ∈ s.frames)
    (kept : ∀ k, k ≠ key → ∀ slot' delay, Frame.failing k slot' delay ∈ s.frames →
      Frame.failing k slot' delay ∈ s'.frames)
    (apart : s'.frames.Pairwise fun a b => ∀ k slot delay slot' delay',
      a = .failing k slot delay → b ≠ .failing k slot' delay') : Sound s' := by
  have hfind : ∀ k, s'.members.slots.find? k =
      if k = key then some slot else s.members.slots.find? k := fun k => by
    rw [slots, KeyMap.find?_insert]
  have hkey : s'.members.slots.find? key = some slot := by rw [hfind, if_pos rfl]
  have hex : ∀ k, s'.members.isExcluded k = s.members.isExcluded k := fun k => by
    rw [isExcluded, excluded]; rfl
  refine h.local_change key ?_ (fun k _ => hex k) ?_ (fun k hk slot' delay => ⟨?_, kept k hk slot'
    delay⟩) apart ?_ ?_ (.inr ⟨?_, ?_⟩) ?_ (h.ids.sublist (fewer.map _)) ?_
  · intro k hk
    rw [hfind, if_neg hk]
  · intro k hk
    rw [timers, if_neg hk]
  · intro hm
    rcases failing k slot' delay hm with ⟨e, -⟩ | ⟨-, hm⟩
    · exact absurd e hk
    · exact hm
  · intro slot' hs
    obtain rfl := Option.some.inj (hkey.symm.trans hs)
    exact ⟨own.1, own.2.1, own.2.2, by rw [hex]; exact admitted⟩
  · intro slot' delay hm
    rcases failing key slot' delay hm with ⟨-, e, hf⟩ | ⟨hne, -⟩
    · subst e; exact ⟨hkey, hf⟩
    · exact absurd rfl hne
  · rw [timers, if_pos rfl]
  · intro slot' hs
    obtain rfl := Option.some.inj (hkey.symm.trans hs)
    exact ⟨quiet.1, quiet.2, failed⟩
  · intro hc
    rw [closed, running] at hc
    exact absurd hc (by decide)
  · intro t ht
    rw [armed]
    exact h.fresh t (fewer.subset ht)

/-- The entry of `key` and its timers go. -/
theorem erase (h : Sound s) (key : PeerKey)
    (slots : ∀ k, s'.members.slots.find? k = if k = key then none else s.members.slots.find? k)
    (excluded : ∀ k, k ≠ key → s'.members.isExcluded k = s.members.isExcluded k)
    (closed : s'.members.closed = s.members.closed)
    (timers : ∀ k, s'.members.timersOf k = if k = key then [] else s.members.timersOf k)
    (fewer : s'.members.timers.Sublist s.members.timers)
    (armed : s'.members.armed = s.members.armed)
    (failing : ∀ k slot delay, Frame.failing k slot delay ∈ s'.frames ↔
      k ≠ key ∧ Frame.failing k slot delay ∈ s.frames)
    (apart : s'.frames.Pairwise fun a b => ∀ k slot delay slot' delay',
      a = .failing k slot delay → b ≠ .failing k slot' delay') : Sound s' := by
  have hkey : s'.members.slots.find? key = none := by rw [slots, if_pos rfl]
  refine h.local_change key ?_ excluded ?_ ?_ apart ?_ ?_ (.inr ⟨?_, ?_⟩) (fun hc => ⟨closed ▸ hc,
    hkey⟩) (h.ids.sublist (fewer.map _)) ?_
  · intro k hk
    rw [slots, if_neg hk]
  · intro k hk
    rw [timers, if_neg hk]
  · intro k hk slot delay
    rw [failing]; exact and_iff_right hk
  · intro slot hs
    rw [hkey] at hs; cases hs
  · intro slot delay hm
    exact absurd rfl ((failing key slot delay).1 hm).1
  · rw [timers, if_pos rfl]
  · intro slot hs
    rw [hkey] at hs; cases hs
  · intro t ht
    rw [armed]
    exact h.fresh t (fewer.subset ht)

/-! ## Steps -/

theorem fail {fs : List Frame} {m : Members} (h : Sound ⟨fs, m⟩) {key : PeerKey} {slot : Slot}
    (hs : m.slots.find? key = some slot) (hh : slot.peer.failed = false) :
    Sound ⟨.failing key (m.failedSlot slot) (m.noteFailure slot.peer).1 :: fs,
      record (.removed key) (m.setSlot key (m.failedSlot slot))⟩ := by
  have idle : Idle ⟨fs, m⟩ key := h.idle_of_healthy hs hh
  have hr := h.not_reporting_of_healthy hs hh
  have own := h.own key slot hs
  refine h.put (m.failedSlot slot) rfl rfl rfl ?_ own.2.2.2 ?_ (List.Sublist.refl _) rfl ⟨own.1,
    own.2.1, own.2.2.1⟩ ?_ (fun _ => ⟨_, _, List.mem_cons_self⟩) ?_ (fun k hk slot' delay hm =>
    List.mem_cons_of_mem _ hm) (List.pairwise_cons.2 ⟨?_, h.apart⟩)
  · cases hc : m.closed with
    | false => rfl
    | true => rw [h.closed hc key] at hs; cases hs
  · intro k
    split
    · next hk => rw [hk]; exact idle.alone
    · rfl
  · exact ⟨(idle.slot slot hs).1, (idle.slot slot hs).2.1⟩
  · intro k slot' delay hm
    rcases List.mem_cons.1 hm with e | hm
    · cases e
      exact .inl ⟨rfl, rfl, rfl⟩
    · exact .inr ⟨fun e => hr ⟨_, _, e ▸ hm⟩, hm⟩
  · intro b hb k slot₁ delay₁ slot₂ delay₂ e e'
    cases e
    exact hr ⟨_, _, e' ▸ hb⟩

/-- The other reports on top of which a failure is reported are about other peers. -/
theorem ne_of_failing {fs : List Frame} {m : Members} {key : PeerKey} {slot : Slot}
    {delay : Duration} (h : Sound ⟨.failing key slot delay :: fs, m⟩) {k : PeerKey} {slot' : Slot}
    {delay' : Duration} (hm : Frame.failing k slot' delay' ∈ fs) : k ≠ key := by
  rintro rfl
  exact (List.pairwise_cons.1 h.apart).1 _ hm _ _ _ _ _ rfl rfl

/-- The slots after the listener has heard of a failure. -/
theorem settle_find? {fs : List Frame} {m : Members} {key : PeerKey} {slot : Slot}
    {delay : Duration} (h : Sound ⟨.failing key slot delay :: fs, m⟩) (k : PeerKey) :
    ((m.count Tally.removed).afterFailure key slot.peer delay).2.slots.find? k =
      if k = key then
        if m.policy.isExhausted slot.peer.failures then none
        else some { slot with
          timer := some m.armed, epoch := slot.epoch + 2, peer := { slot.peer with pending := true } }
      else m.slots.find? k := by
  have hs : m.slots.find? key = some slot := (h.failing key slot delay List.mem_cons_self).1
  obtain ⟨ht, -, -⟩ := (h.idle_of_reporting ⟨_, _, List.mem_cons_self⟩).slot slot hs
  cases he : m.policy.isExhausted slot.peer.failures with
  | true =>
    rw [afterFailure_of_exhausted (m := m.count Tally.removed) delay hs he]
    dsimp only
    rw [KeyMap.find?_erase]
    by_cases hk : k = key
    · rw [if_pos hk, if_pos hk, if_pos rfl]
    · rw [if_neg hk, if_neg hk, KeyMap.find?_insert, if_neg hk]
      rfl
  | false =>
    rw [afterFailure_of_spared (m := m.count Tally.removed) delay hs he, arm_of_quiet key delay ht]
    exact KeyMap.find?_insert _ _ _ _

/-- What is put on record once the listener has heard of a failure. -/
theorem settle_history {fs : List Frame} {m : Members} {key : PeerKey} {slot : Slot}
    {delay : Duration} (h : Sound ⟨.failing key slot delay :: fs, m⟩) :
    ((m.count Tally.removed).afterFailure key slot.peer delay).2.history =
      ⟨m.now, if m.policy.isExhausted slot.peer.failures then .excluded key
        else .scheduled key delay slot.peer.sustained⟩ :: m.history := by
  have hs : m.slots.find? key = some slot := (h.failing key slot delay List.mem_cons_self).1
  obtain ⟨ht, -, -⟩ := (h.idle_of_reporting ⟨_, _, List.mem_cons_self⟩).slot slot hs
  cases he : m.policy.isExhausted slot.peer.failures with
  | true =>
    rw [afterFailure_of_exhausted (m := m.count Tally.removed) delay hs he]
    rfl
  | false =>
    rw [afterFailure_of_spared (m := m.count Tally.removed) delay hs he, arm_of_quiet key delay ht]
    rfl

/-- The timers after the listener has heard of a failure. -/
theorem settle_timersOf {fs : List Frame} {m : Members} {key : PeerKey} {slot : Slot}
    {delay : Duration} (h : Sound ⟨.failing key slot delay :: fs, m⟩) (k : PeerKey) :
    ((m.count Tally.removed).afterFailure key slot.peer delay).2.timersOf k =
      if k = key ∧ m.policy.isExhausted slot.peer.failures = false then
        [⟨m.armed, key, slot.epoch + 2, Clock.after m.now delay⟩]
      else m.timersOf k := by
  have hs : m.slots.find? key = some slot := (h.failing key slot delay List.mem_cons_self).1
  have idle := h.idle_of_reporting ⟨_, _, List.mem_cons_self⟩
  obtain ⟨ht, -, -⟩ := idle.slot slot hs
  cases he : m.policy.isExhausted slot.peer.failures with
  | true =>
    rw [afterFailure_of_exhausted (m := m.count Tally.removed) delay hs he, if_neg (by simp)]
    simp only [timersOf, ht, timers_dropTimer_none]
    rfl
  | false =>
    rw [afterFailure_of_spared (m := m.count Tally.removed) delay hs he, arm_of_quiet key delay ht]
    have halone : m.timers.filter (·.key == key) = [] := idle.alone
    by_cases hk : k = key
    · simp [timersOf, note, count, hk, halone]
    · simp [timersOf, note, count, hk, Ne.symm hk]

theorem settle_excluded {fs : List Frame} {m : Members} {key : PeerKey} {slot : Slot}
    {delay : Duration} (h : Sound ⟨.failing key slot delay :: fs, m⟩)
    (he : m.policy.isExhausted slot.peer.failures = true) :
    Sound ⟨fs, ((m.count Tally.removed).afterFailure key slot.peer delay).2⟩ := by
  have hs : m.slots.find? key = some slot := (h.failing key slot delay List.mem_cons_self).1
  rw [afterFailure_of_exhausted (m := m.count Tally.removed) delay hs he]
  refine h.erase key ?_ ?_ rfl ?_ (List.filter_sublist) rfl (fun k slot' delay' => ⟨?_, ?_⟩)
    (List.pairwise_cons.1 h.apart).2
  · intro k
    rw [KeyMap.find?_erase]
    split
    · rfl
    · next hk => rw [KeyMap.find?_insert, if_neg hk]; rfl
  · intro k hk
    simp only [isExcluded, KeyMap.contains, KeyMap.find?_insert, if_neg hk]
    rfl
  · intro k
    exact h.timersOf_dropTimer hs k
  · intro hm
    exact ⟨h.ne_of_failing hm, List.mem_cons_of_mem _ hm⟩
  · rintro ⟨hk, hm⟩
    rcases List.mem_cons.1 hm with e | hm
    · cases e; exact absurd rfl hk
    · exact hm

theorem settle_scheduled {fs : List Frame} {m : Members} {key : PeerKey} {slot : Slot}
    {delay : Duration} (h : Sound ⟨.failing key slot delay :: fs, m⟩)
    (he : m.policy.isExhausted slot.peer.failures = false) :
    Sound ⟨fs, ((m.count Tally.removed).afterFailure key slot.peer delay).2⟩ := by
  obtain ⟨hs, hf⟩ : m.slots.find? key = some slot ∧ slot.peer.failed = true :=
    h.failing key slot delay List.mem_cons_self
  have idle := h.idle_of_reporting ⟨_, _, List.mem_cons_self⟩
  obtain ⟨ht, hp, -⟩ := idle.slot slot hs
  obtain ⟨h1, h2, h3, h4⟩ := h.own key slot hs
  have hr : ¬ Reporting fs key := fun ⟨slot', delay', hm⟩ => h.ne_of_failing hm rfl
  rw [afterFailure_of_spared (m := m.count Tally.removed) delay hs he, arm_of_quiet key delay ht]
  refine h.local_change key ?_ (fun k _ => rfl) ?_ (fun k hk slot' delay' => ⟨List.mem_cons_of_mem
    _, ?_⟩) (List.pairwise_cons.1 h.apart).2 ?_ (fun slot' delay' hm => absurd ⟨_, _, hm⟩ hr) (.inl
    ?_) ?_ ?_ ?_
  · intro k hk
    simp only [note, count, KeyMap.find?_insert, if_neg hk]
  · intro k hk
    simp [note, count, timersOf, Ne.symm hk]
  · intro hm
    rcases List.mem_cons.1 hm with e | hm
    · cases e; exact absurd rfl hk
    · exact hm
  · intro slot' hs'
    simp only [note, count, KeyMap.find?_insert, if_true, Option.some.injEq] at hs'
    subst hs'
    exact ⟨h1, h2, h3, h4⟩
  · refine ⟨_, ⟨m.armed, key, slot.epoch + 2, Clock.after m.now delay⟩, (KeyMap.find?_insert _ _ _
      _).trans (if_pos rfl), hf, hr, rfl, rfl, rfl, ?_⟩
    have halone : m.timersOf key = [] := idle.alone
    simp only [timersOf] at halone
    simp [note, count, timersOf, halone]
  · intro hc
    rw [h.closed hc key] at hs; cases hs
  · have hnew : m.armed ∉ m.timers.map (·.id) := fun hm => by
      obtain ⟨t, htm, e⟩ := List.mem_map.1 hm
      exact absurd (h.fresh t htm) (by rw [e]; exact Nat.lt_irrefl _)
    simp only [note, count, List.map_append, List.map_cons, List.map_nil]
    exact List.nodup_append.2 ⟨h.ids, List.nodup_singleton _, fun i hi j hj e => hnew
      (by rw [← List.mem_singleton.1 hj, ← e]; exact hi)⟩
  · intro t htm
    simp only [note, count, List.mem_append, List.mem_singleton] at htm ⊢
    rcases htm with htm | rfl
    · exact Nat.lt_succ_of_lt (h.fresh t htm)
    · exact Nat.lt_succ_self _

/-- A slot without a timer takes the place of `slot`, whose timer is dropped. -/
theorem replace {fs fs' : List Frame} {m m' : Members} (h : Sound ⟨fs, m⟩) {key : PeerKey}
    {slot : Slot} (slot' : Slot) (hs : m.slots.find? key = some slot)
    (slots : m'.slots = m.slots.insert key slot') (excluded : m'.excluded = m.excluded)
    (closed : m'.closed = m.closed) (timers : m'.timers = (m.dropTimer slot.timer).timers)
    (armed : m'.armed = m.armed) (evicted : slot'.evicted = slot.evicted)
    (own : slot'.peer.key = slot.peer.key ∧ slot'.peer.record.key = key)
    (quiet : slot'.timer = none ∧ slot'.peer.pending = false ∧ slot'.peer.failed = false)
    (none : ∀ k s d, Frame.failing k s d ∉ fs)
    (none' : ∀ k s d, Frame.failing k s d ∉ fs') : Sound ⟨fs', m'⟩ := by
  obtain ⟨h1, h2, -, h4⟩ := h.own key slot hs
  refine h.put slot' slots excluded closed ?_ h4 ?_ ?_ armed ⟨evicted.trans h1, own.1.trans h2,
    own.2⟩ ⟨quiet.1, quiet.2.1⟩ ?_ (fun k s d hm => absurd hm (none' k s d)) (fun k _ s d hm =>
    absurd hm (none k s d)) (List.pairwise_of_forall_mem_list fun a ha b _ k s d _ _ e _ => none' k
    s d (e ▸ ha))
  · cases hc : m.closed with
    | false => rfl
    | true => rw [h.closed hc key] at hs; cases hs
  · intro k
    rw [← h.timersOf_dropTimer hs, timersOf, timers]
    rfl
  · rw [timers]
    exact List.filter_sublist
  · intro hf
    rw [quiet.2.2] at hf
    exact absurd hf (by decide)

theorem reconnect {m : Members} {slot : Slot} {t : Timer} (h : Sound ⟨[], m⟩) (ht : t ∈ m.timers)
    (hs : m.slots.find? t.key = some slot) (hf : slot.peer.failed = true) :
    Sound ⟨[.reconnecting], record (.added slot.peer.record) (((m.dropTimer (some t.id)).setSlot
      t.key { slot with timer := none, peer := m.reconnectedPeer slot }).note
        (.reconnected t.key))⟩ := by
  obtain ⟨t', w⟩ := h.waiting_of_failed hs hf (not_reporting_nil _)
  have e : t = t' := by
    have hm : t ∈ m.timersOf t.key := mem_timersOf.2 ⟨ht, rfl⟩
    rw [w.alone] at hm
    exact List.mem_singleton.1 hm
  have hid : slot.timer = some t.id := by rw [w.timer, e]
  exact h.replace { slot with timer := none, peer := m.reconnectedPeer slot } hs rfl rfl
    rfl (by rw [hid]; rfl) rfl rfl ⟨rfl, (h.own _ _ hs).2.2.1⟩
    ⟨rfl, rfl, rfl⟩ (by simp) (by simp)

theorem restore {m : Members} {candidates : KeyMap Record} {slot : Slot} {r : Record}
    (h : Sound ⟨[.cycling candidates], m⟩) (hs : m.slots.find? r.key = some slot) :
    Sound ⟨[.announcing, .cycling candidates],
      record (.added r) (((m.dropTimer slot.timer).setSlot r.key
        { slot.cancel with peer := m.restoredPeer slot r }).note
          (.restored r.key slot.peer.sustained))⟩ := by
  have hp : (m.restoredPeer slot r).key = slot.peer.key ∧ (m.restoredPeer slot r).record.key = r.key ∧
      (m.restoredPeer slot r).pending = false ∧ (m.restoredPeer slot r).failed = false := by
    unfold restoredPeer resetCounters
    dsimp only
    split <;> exact ⟨rfl, rfl, rfl, rfl⟩
  exact h.replace { slot.cancel with peer := m.restoredPeer slot r } hs rfl rfl rfl rfl rfl rfl
    ⟨hp.1, hp.2.1⟩ ⟨rfl, hp.2.2⟩ (by simp) (by simp)

theorem reset {m : Members} {candidates : KeyMap Record} {slot : Slot} {r : Record}
    (h : Sound ⟨[.cycling candidates], m⟩) (hs : m.slots.find? r.key = some slot)
    (hh : slot.peer.failed = false) :
    Sound ⟨[.cycling candidates], (m.setSlot r.key
      { slot with peer := m.resetCounters { slot.peer with record := r } }).note (.reset r.key)⟩ := by
  obtain ⟨h1, h2, -⟩ := (h.idle_of_healthy hs hh).slot slot hs
  exact h.replace { slot with peer := m.resetCounters { slot.peer with record := r } } hs
    rfl rfl rfl (by rw [h1]; exact (timers_dropTimer_none m).symm) rfl rfl ⟨rfl, rfl⟩ ⟨h1, h2, hh⟩
    (by simp) (by simp)

theorem refresh {m : Members} {candidates : KeyMap Record} {slot : Slot} {r : Record}
    (h : Sound ⟨[.cycling candidates], m⟩) (hs : m.slots.find? r.key = some slot) :
    Sound ⟨[.cycling candidates],
      m.setSlot r.key { slot with peer := { slot.peer with record := r } }⟩ := by
  obtain ⟨h1, h2, -, h4⟩ := h.own _ slot hs
  have hkey : (m.setSlot r.key { slot with peer := { slot.peer with record := r } }).slots.find?
      r.key = some { slot with peer := { slot.peer with record := r } } :=
    (KeyMap.find?_insert _ _ _ _).trans (if_pos rfl)
  refine h.local_change r.key (fun k hk => (KeyMap.find?_insert _ _ _ _).trans (if_neg hk))
    (fun _ _ => rfl) (fun _ _ => rfl) (fun _ _ _ _ => Iff.rfl) h.apart (fun slot' hs' => ?_)
    (by simp) ?_ (fun hc => ?_) h.ids h.fresh
  · obtain rfl := Option.some.inj (hkey.symm.trans hs')
    exact ⟨h1, h2, rfl, h4⟩
  · rcases h.timing r.key with ⟨slot', t, w⟩ | i
    · obtain rfl := Option.some.inj (hs.symm.trans w.tracked)
      exact .inl ⟨_, t, hkey, w.failed, w.told, w.timer, w.pending, w.epoch, w.alone⟩
    · refine .inr ⟨i.alone, ?_⟩
      intro slot' hs'
      obtain rfl := Option.some.inj (hkey.symm.trans hs')
      exact i.slot slot hs
  · rw [h.closed hc] at hs
    cases hs

theorem enlist {m : Members} {candidates : KeyMap Record} {r : Record}
    (h : Sound ⟨[.cycling candidates], m⟩) (running : m.closed = false)
    (admitted : m.isExcluded r.key = false) (untracked : m.slots.find? r.key = none) :
    Sound ⟨[.announcing, .cycling candidates], record (.added r) ((m.setSlot r.key
      (.fresh (.fresh r m.initialDelay m.now))).note (.tracked r.key))⟩ := by
  have idle : Idle ⟨[.cycling candidates], m⟩ r.key := by
    rcases h.timing r.key with ⟨slot, t, w⟩ | i
    · rw [w.tracked] at untracked
      cases untracked
    · exact i
  refine h.put (.fresh (.fresh r m.initialDelay m.now)) rfl rfl rfl running admitted
    ?_ (List.Sublist.refl _) rfl ⟨rfl, rfl, rfl⟩ ⟨rfl, rfl⟩ ?_ (by simp)
    (by simp) (by simp)
  · intro k
    split
    · next hk => rw [hk]; exact idle.alone
    · rfl
  · intro hf
    cases hf

theorem detach {m : Members} {candidates : KeyMap Record} {key : PeerKey} {slot : Slot}
    (h : Sound ⟨[.cycling candidates], m⟩) (hs : m.slots.find? key = some slot) :
    Sound ⟨[.cycling candidates], (m.detach key slot).note (.dropped key)⟩ := by
  refine h.erase key (fun k => KeyMap.find?_erase _ _ _) (fun _ _ => rfl) rfl
    (h.timersOf_dropTimer hs) List.filter_sublist rfl (by simp) (by simp)

/-- An armed timer is held by the slot of its peer. -/
theorem held (h : Sound s) {t : Timer} (ht : t ∈ s.members.timers) :
    ∃ slot, Waiting s t.key slot t := by
  have hm : t ∈ s.members.timersOf t.key := mem_timersOf.2 ⟨ht, rfl⟩
  rcases h.timing t.key with ⟨slot, t', w⟩ | i
  · rw [w.alone] at hm
    exact ⟨slot, List.mem_singleton.1 hm ▸ w⟩
  · rw [i.alone] at hm
    cases hm

theorem close {m : Members} (h : Sound ⟨[], m⟩) : Sound ⟨[], m.close⟩ := by
  have hnone : m.close.timers = [] := by
    refine List.filter_eq_nil_iff.2 ?_
    intro t ht
    obtain ⟨slot, w⟩ := h.held ht
    simpa using ⟨slot, KeyMap.mem_values_of_find? w.tracked, w.timer⟩
  refine ⟨?_, ?_, List.Pairwise.nil, fun _ _ => rfl, fun key => .inr ⟨?_, ?_⟩, ?_, ?_⟩
  · intro key slot hs
    cases hs
  · intro key slot delay hm
    cases hm
  · simp [timersOf, hnone]
  · intro slot hs
    cases hs
  · simp [hnone]
  · intro t ht
    rw [hnone] at ht
    cases ht

/-- **Slots, exclusions and timers keep agreeing**, whatever changes. -/
theorem step (h : Sound s) (st : Step s s') : Sound s' := by
  cases st with
  | aside journal reactions used =>
    exact h.congr rfl (fun _ => id) rfl rfl rfl (fun _ _ _ => Iff.rfl) h.apart
  | reply reply => exact h.congr rfl (fun _ => id) rfl rfl rfl (fun _ _ _ => Iff.rfl) h.apart
  | count hf => exact h.congr rfl (fun _ => id) rfl rfl rfl (fun _ _ _ => Iff.rfl) h.apart
  | fail tracked healthy => exact h.fail tracked healthy
  | @settle fs m key slot delay =>
    cases he : m.policy.isExhausted slot.peer.failures with
    | true => exact h.settle_excluded he
    | false => exact h.settle_scheduled he
  | reconnect t armed due tracked failed => exact h.reconnect armed tracked failed
  | reconnected =>
    exact h.congr rfl (fun _ => id) rfl rfl rfl (by simp) (List.pairwise_cons.1 h.apart).2
  | enter candidates own => exact h.congr rfl (fun _ => id) rfl rfl rfl (by simp) (by simp)
  | leave => exact h.congr rfl (fun _ => id) rfl rfl rfl (by simp) (by simp)
  | withdraw tracked healthy unlisted =>
    exact (h.detach tracked).congr rfl (fun _ => id) rfl rfl rfl (by simp) (by simp)
  | withdrawn =>
    exact h.congr rfl (fun _ => id) rfl rfl rfl (by simp) (List.pairwise_cons.1 h.apart).2
  | drop tracked failed unlisted => exact h.detach tracked
  | restore tracked failed listed => exact h.restore tracked
  | reset tracked healthy listed sustained =>
    exact h.reset tracked healthy
  | refresh tracked listed => exact h.refresh tracked
  | enlist running admitted untracked listed => exact h.enlist running admitted untracked
  | announced =>
    exact h.congr rfl (fun _ => id) rfl rfl rfl (by simp) (List.pairwise_cons.1 h.apart).2

theorem steps (h : Sound s) (st : Steps s s') : Sound s' := by
  induction st with
  | refl => exact h
  | tail _ st ih => exact ih.step st

theorem move {m m' : Members} (h : Sound ⟨[], m⟩) (mv : Move m m') : Sound ⟨[], m'⟩ := by
  cases mv with
  | work st => exact h.steps st
  | pass time later due ticks => exact h.congr rfl (fun _ => id) rfl rfl rfl (fun _ _ _ => Iff.rfl) h.apart
  | pardon key =>
    refine h.congr rfl ?_ rfl rfl rfl (fun _ _ _ => Iff.rfl) h.apart
    intro k hk
    simp only [pardon, note, isExcluded, KeyMap.contains, KeyMap.find?_erase] at hk ⊢
    split
    · rfl
    · exact hk
  | close => exact h.close

theorem moves {m m' : Members} (h : Sound ⟨[], m⟩) (mv : Moves m m') : Sound ⟨[], m'⟩ := by
  induction mv with
  | refl => exact h
  | tail _ mv ih => exact ih.move mv

/-- With no peer yet, everything agrees. -/
theorem initial (policy : Policy) (delay : Duration) (reactions : List Reaction) :
    Sound ⟨[], Members.initial policy delay reactions⟩ := by
  refine ⟨?_, ?_, List.Pairwise.nil, fun _ _ => rfl, fun key => .inr ⟨rfl, ?_⟩, List.nodup_nil, ?_⟩
  · intro key slot hs
    cases hs
  · intro key slot delay hm
    cases hm
  · intro slot hs
    cases hs
  · intro t ht
    cases ht

end Sound

/-! ## Lasting properties -/

/-- A property that no change takes away from sound members. -/
structure Lasting (P : Situation → Prop) : Prop where
  step : ∀ {s s'}, Sound s → P s → Step s s' → P s'
  pass : ∀ {m} time, Sound ⟨[], m⟩ → P ⟨[], m⟩ → m.now ≤ time → (∀ t ∈ m.timers, time ≤ t.due) →
    time % Clock.tick = 0 → P ⟨[], { m with now := time }⟩
  pardon : ∀ {m} key, P ⟨[], m⟩ → P ⟨[], (m.pardon key).2⟩
  close : ∀ {m}, Sound ⟨[], m⟩ → P ⟨[], m⟩ → P ⟨[], m.close⟩

namespace Lasting

variable {P : Situation → Prop}

theorem steps (l : Lasting P) {s s' : Situation} (sound : Sound s) (h : P s) (st : Steps s s') :
    P s' := by
  induction st with
  | refl => exact h
  | tail before st ih => exact l.step (sound.steps before) ih st

theorem moves (l : Lasting P) {m m' : Members} (sound : Sound ⟨[], m⟩) (h : P ⟨[], m⟩)
    (mv : Moves m m') : P ⟨[], m'⟩ := by
  induction mv with
  | refl => exact h
  | tail before mv ih =>
    have sound' := sound.moves before
    cases mv with
    | work st => exact l.steps sound' ih st
    | pass time later due ticks => exact l.pass time sound' ih later due ticks
    | pardon key => exact l.pardon key ih
    | close => exact l.close sound' ih

end Lasting

end Roster
