import Mathlib.Algebra.Group.Nat.Defs
import Roster.Proofs.Chronicle
import Roster.Proofs.Doubling

/-!
# Proofs.Counters — delays and failure counts in closed form

* `Ledger`, `ledgerOf`: the reconnects and the counted failures of a peer since it was last tracked
  or reset, and when its connection began, going by the record alone.
* `Matches`: the counters of a peer are those of the ledger. `Earned`: each failure on record is
  answered by the ledger, and each reset is earned.
* `Booked.lasting`: so it stays. `counters_in_closed_form`: so it is wherever discovery can be.
-/

namespace Roster

open Members Relation

/-! ## The ledger -/

/-- What counts about a peer. -/
structure Ledger where
  /-- When its connection began, or the last one before it failed. -/
  since : Nat
  /-- Reconnects by its timer. -/
  reconnects : Nat
  /-- Failures of connections that had lasted. -/
  failures : Nat
  /-- The connection that ended with the last failure had lasted. -/
  sustained : Bool

namespace Ledger

/-- A peer that nothing has become of. -/
def zero : Ledger := ⟨0, 0, 0, false⟩

/-- The connection fails. -/
def fail (p : Policy) (now : Nat) (l : Ledger) : Ledger :=
  let sustained := p.isSustained (Clock.since now l.since)
  { l with failures := if sustained then l.failures + 1 else l.failures, sustained }

/-- The ledger after an entry that concerns the peer. -/
def after (p : Policy) (l : Ledger) (e : Entry) : Ledger :=
  match e.what with
  | .tracked _ => ⟨e.time, 0, 0, false⟩
  | .scheduled _ _ _ => l.fail p e.time
  | .reconnected _ => { l with since := e.time, reconnects := l.reconnects + 1 }
  | .restored _ true => { l with since := e.time, reconnects := 0, failures := 0 }
  | .restored _ false => { l with since := e.time }
  | .reset _ => { l with reconnects := 0, failures := 0 }
  | _ => l

/-- The reconnect delay: the initial one, doubled with every reconnect, up to the ceiling. -/
def delay (p : Policy) (l : Ledger) : Nat :=
  min (p.initialDelay.nanos * 2 ^ l.reconnects) p.maxDelay.nanos

/-- How long a peer that failed waits. -/
def wait (p : Policy) (l : Ledger) : Nat := if l.sustained then l.delay p else p.minConnectTime.nanos

/-- The last failure was counted and is one too many. -/
def Exhausted (p : Policy) (l : Ledger) : Prop :=
  l.sustained = true ∧ 0 < p.maxFailures ∧ l.failures = p.maxFailures.toNat

/-- One more failure may be counted. -/
def Bounded (p : Policy) (l : Ledger) : Prop :=
  0 < p.maxFailures → l.failures < p.maxFailures.toNat

end Ledger

def ledgerOf (p : Policy) (key : PeerKey) : List Entry → Ledger
  | [] => .zero
  | e :: past => if e.what.concerns key then (ledgerOf p key past).after p e else ledgerOf p key past

/-- A failure is answered by the ledger: it excludes the peer if and only if it is counted and one too
many, and else the peer waits as long as the ledger says. A reset is earned by a connection that had
lasted. -/
def EarnedAt (p : Policy) (l : Ledger) (e : Entry) : Prop :=
  match e.what with
  | .scheduled _ delay counted => counted = (l.fail p e.time).sustained ∧
      delay.nanos = (l.fail p e.time).wait p ∧ ¬ (l.fail p e.time).Exhausted p
  | .excluded _ => (l.fail p e.time).Exhausted p
  | .reset _ => p.isSustained (Clock.since e.time l.since) = true
  | .restored _ true => l.sustained = true
  | _ => True

/-- Everything that became of the peer was earned at that point. -/
def Earned (p : Policy) (key : PeerKey) : List Entry → Prop
  | [] => True
  | e :: past => (e.what.concerns key = true → EarnedAt p (ledgerOf p key past) e) ∧ Earned p key past

theorem ledgerOf_of_other {p : Policy} {key : PeerKey} {e : Entry}
    (h : e.what.concerns key = false) (past : List Entry) :
    ledgerOf p key (e :: past) = ledgerOf p key past := by
  rw [ledgerOf, h]
  rfl

theorem ledgerOf_of_concerns {p : Policy} {key : PeerKey} {e : Entry}
    (h : e.what.concerns key = true) (past : List Entry) :
    ledgerOf p key (e :: past) = (ledgerOf p key past).after p e := by
  rw [ledgerOf, h]
  rfl

theorem earned_of_other {p : Policy} {key : PeerKey} {e : Entry} (h : e.what.concerns key = false)
    {past : List Entry} (l : Earned p key past) : Earned p key (e :: past) :=
  ⟨fun hc => absurd (h.symm.trans hc) (by decide), l⟩

theorem earnedAt_of_earned {p : Policy} {key : PeerKey} {e : Entry} {later past : List Entry}
    (l : Earned p key (later ++ e :: past)) (h : e.what.concerns key = true) :
    EarnedAt p (ledgerOf p key past) e := by
  induction later with
  | nil => exact l.1 h
  | cons x rest ih => exact ih l.2

/-! ## Counting failures -/

theorem fail_exhausted_iff {p : Policy} {l : Ledger} {now : Nat} :
    (l.fail p now).Exhausted p ↔ p.isSustained (Clock.since now l.since) = true ∧
      0 < p.maxFailures ∧ l.failures + 1 = p.maxFailures.toNat := by
  unfold Ledger.Exhausted Ledger.fail
  cases p.isSustained (Clock.since now l.since) <;> simp

/-- A word counts the failures as long as they may be counted. -/
theorem exhausted_iff {p : Policy} {l : Ledger} {now : Nat} {failures : UInt32}
    (bounded : l.Bounded p) (hf : failures.toNat = (l.fail p now).failures % UInt32.size) :
    p.isExhausted failures = true ↔ (l.fail p now).Exhausted p := by
  unfold Policy.isExhausted Ledger.Exhausted
  rw [Bool.and_eq_true_iff, decide_eq_true_iff, decide_eq_true_iff]
  have hmax := p.maxFailures.toNat_lt_size
  constructor
  · rintro ⟨hpos, hle⟩
    have hlt := bounded hpos
    have hle' : p.maxFailures.toNat ≤ failures.toNat := UInt32.le_iff_toNat_le.1 hle
    rw [hf] at hle'
    cases hs : p.isSustained (Clock.since now l.since) with
    | false =>
      simp only [Ledger.fail, hs] at hle'
      have := Nat.mod_le l.failures UInt32.size
      simp at hle'
      omega
    | true =>
      simp only [Ledger.fail, hs, if_true] at hle' ⊢
      refine ⟨trivial, hpos, ?_⟩
      have := Nat.mod_le (l.failures + 1) UInt32.size
      omega
  · rintro ⟨-, hpos, heq⟩
    refine ⟨hpos, UInt32.le_iff_toNat_le.2 (Nat.le_of_eq ?_)⟩
    rw [hf, heq, Nat.mod_eq_of_lt hmax]

/-! ## The counters and the ledger -/

/-- The counters of a peer are those of the ledger. -/
structure Matches (p : Policy) (l : Ledger) (peer : Tracked) : Prop where
  delay : peer.delay.nanos = l.delay p
  failures : peer.failures.toNat = l.failures % UInt32.size
  since : peer.connectTime = l.since
  sustained : peer.failed = true → peer.sustained = l.sustained

/-- Every counter is that of the ledger. While a failure is being reported, the ledger lags behind by
it. -/
structure Booked (p : Policy) (s : Situation) : Prop where
  policy : s.members.policy = p
  initial : s.members.initialDelay = p.initialDelay
  settled : ∀ key slot, s.members.slots.find? key = some slot → ¬ Reporting s.frames key →
    Matches p (ledgerOf p key s.members.history) slot.peer ∧
      (ledgerOf p key s.members.history).Bounded p
  reported : ∀ key slot delay, .failing key slot delay ∈ s.frames →
    Matches p ((ledgerOf p key s.members.history).fail p s.members.now) slot.peer ∧
      (ledgerOf p key s.members.history).Bounded p ∧
      delay.nanos = ((ledgerOf p key s.members.history).fail p s.members.now).wait p
  earned : ∀ key, Earned p key s.members.history

namespace Booked

variable {p : Policy} {s s' : Situation}

/-- Nobody is concerned. -/
theorem congr (h : Booked p s) (slots : s'.members.slots = s.members.slots)
    (policy : s'.members.policy = s.members.policy)
    (initial : s'.members.initialDelay = s.members.initialDelay)
    (now : s'.members.now = s.members.now)
    (ledger : ∀ key, ledgerOf p key s'.members.history = ledgerOf p key s.members.history)
    (earned : ∀ key, Earned p key s.members.history → Earned p key s'.members.history)
    (frames : ∀ key slot delay, .failing key slot delay ∈ s'.frames ↔
      .failing key slot delay ∈ s.frames) : Booked p s' where
  policy := policy.trans h.policy
  initial := initial.trans h.initial
  settled key slot hs hr := by
    rw [ledger]
    refine h.settled key slot (slots ▸ hs) fun ⟨slot', delay, hm⟩ => hr ⟨slot', delay, ?_⟩
    exact (frames _ _ _).2 hm
  reported key slot delay hm := by
    rw [ledger, now]
    exact h.reported key slot delay ((frames _ _ _).1 hm)
  earned key := earned key (h.earned key)

/-- One peer is concerned. -/
theorem local_change (h : Booked p s) (key : PeerKey) {e : Entry}
    (history : s'.members.history = e :: s.members.history)
    (concerns : ∀ k, k ≠ key → e.what.concerns k = false)
    (policy : s'.members.policy = s.members.policy)
    (initial : s'.members.initialDelay = s.members.initialDelay)
    (now : s'.members.now = s.members.now)
    (slots : ∀ k, k ≠ key → s'.members.slots.find? k = s.members.slots.find? k)
    (frames : ∀ k slot delay, .failing k slot delay ∈ s'.frames ↔
      k ≠ key ∧ .failing k slot delay ∈ s.frames)
    (earned : EarnedAt p (ledgerOf p key s.members.history) e)
    (peer : ∀ slot, s'.members.slots.find? key = some slot →
      Matches p ((ledgerOf p key s.members.history).after p e) slot.peer ∧
        ((ledgerOf p key s.members.history).after p e).Bounded p)
    (touched : e.what.concerns key = true) : Booked p s' where
  policy := policy.trans h.policy
  initial := initial.trans h.initial
  settled k slot hs hr := by
    by_cases hk : k = key
    · subst hk
      rw [history, ledgerOf_of_concerns touched]
      exact peer slot hs
    · rw [history, ledgerOf_of_other (concerns k hk)]
      refine h.settled k slot (slots k hk ▸ hs) fun ⟨slot', delay, hm⟩ => hr ⟨slot', delay, ?_⟩
      exact (frames _ _ _).2 ⟨hk, hm⟩
  reported k slot delay hm := by
    obtain ⟨hk, hm⟩ := (frames _ _ _).1 hm
    rw [history, ledgerOf_of_other (concerns k hk), now]
    exact h.reported k slot delay hm
  earned k := by
    rw [history]
    by_cases hk : k = key
    · exact hk ▸ ⟨fun _ => earned, h.earned key⟩
    · exact earned_of_other (concerns k hk) (h.earned k)

/-- What the ledger says once a healthy peer has failed. -/
theorem noteFailure {m : Members} {fs : List Frame} {key : PeerKey} {slot : Slot}
    (h : Booked p ⟨fs, m⟩) (hs : m.slots.find? key = some slot) (calm : ¬ Reporting fs key) :
    Matches p ((ledgerOf p key m.history).fail p m.now) (m.noteFailure slot.peer).2 ∧
      (ledgerOf p key m.history).Bounded p ∧
      (m.noteFailure slot.peer).1.nanos = ((ledgerOf p key m.history).fail p m.now).wait p := by
  obtain ⟨known, bounded⟩ := h.settled key slot hs calm
  have hpolicy : m.policy = p := h.policy
  have known' : Matches p (ledgerOf p key m.history) slot.peer := known
  have hcounted : m.policy.isSustained (m.connectedFor slot.peer) =
      p.isSustained (Clock.since m.now (ledgerOf p key m.history).since) := by
    rw [hpolicy, connectedFor, known'.since]
  refine ⟨⟨known'.delay, ?_, known'.since, fun _ => hcounted⟩, bounded, ?_⟩
  · show (if m.policy.isSustained (m.connectedFor slot.peer) then slot.peer.failures + 1
      else slot.peer.failures).toNat = _
    rw [hcounted]
    unfold Ledger.fail
    dsimp only
    split
    · rw [UInt32.toNat_add, known'.failures]
      exact Nat.mod_add_mod _ _ _
    · exact known'.failures
  · show (if m.policy.isSustained (m.connectedFor slot.peer) then slot.peer.delay
      else m.policy.minConnectTime).nanos = _
    rw [hcounted, hpolicy]
    unfold Ledger.wait Ledger.fail
    dsimp only
    split
    · exact known'.delay
    · rfl

theorem fail {m : Members} {fs : List Frame} {key : PeerKey} {slot : Slot}
    (h : Booked p ⟨fs, m⟩) (sound : Sound ⟨fs, m⟩) (hs : m.slots.find? key = some slot)
    (hh : slot.peer.failed = false) :
    Booked p ⟨.failing key (m.failedSlot slot) (m.noteFailure slot.peer).1 :: fs,
      record (.removed key) (m.setSlot key (m.failedSlot slot))⟩ where
  policy := h.policy
  initial := h.initial
  settled k slot' hs' hr := by
    have hk : k ≠ key := by
      rintro rfl
      exact hr ⟨_, _, List.mem_cons_self⟩
    refine h.settled k slot' ?_ fun ⟨_, _, hm⟩ => hr ⟨_, _, List.mem_cons_of_mem _ hm⟩
    exact ((KeyMap.find?_insert _ _ _ _).trans (if_neg hk)).symm.trans hs'
  reported k slot' delay hm := by
    rcases List.mem_cons.1 hm with he | hm
    · cases he
      exact h.noteFailure hs (sound.not_reporting_of_healthy hs hh)
    · exact h.reported k slot' delay hm
  earned := h.earned

theorem settle {m : Members} {fs : List Frame} {key : PeerKey} {slot : Slot} {delay : Duration}
    (h : Booked p ⟨.failing key slot delay :: fs, m⟩)
    (sound : Sound ⟨.failing key slot delay :: fs, m⟩) :
    Booked p ⟨fs, ((m.count Tally.removed).afterFailure key slot.peer delay).2⟩ := by
  obtain ⟨known, bounded, wait⟩ := h.reported key slot delay List.mem_cons_self
  obtain ⟨-, hf⟩ := sound.failing key slot delay List.mem_cons_self
  obtain ⟨hpolicy, hinitial, hnow, -⟩ :=
    afterFailure_fixed (m.count Tally.removed) key slot.peer delay
  have hp : m.policy = p := h.policy
  have exhausted : m.policy.isExhausted slot.peer.failures = true ↔
      ((ledgerOf p key m.history).fail p m.now).Exhausted p := by
    rw [hp]
    exact exhausted_iff bounded known.failures
  refine h.local_change key sound.settle_history ?_ hpolicy hinitial hnow
    ?_ (fun k slot' delay' => ⟨?_, ?_⟩) ?_ ?_ ?_
  · intro k hk
    cases m.policy.isExhausted slot.peer.failures <;> simp [Happening.concerns, Ne.symm hk]
  · intro k hk
    rw [sound.settle_find?, if_neg hk]
  · intro hm
    exact ⟨sound.ne_of_failing hm, List.mem_cons_of_mem _ hm⟩
  · rintro ⟨hk, hm⟩
    rcases List.mem_cons.1 hm with he | hm
    · cases he
      exact absurd rfl hk
    · exact hm
  · cases he : m.policy.isExhausted slot.peer.failures with
    | true => exact exhausted.1 he
    | false =>
      refine ⟨known.sustained hf, wait, ?_⟩
      intro hx
      exact absurd (exhausted.2 hx) (by rw [he]; decide)
  · intro slot' hs'
    rw [sound.settle_find?, if_pos rfl] at hs'
    cases he : m.policy.isExhausted slot.peer.failures with
    | true =>
      rw [he] at hs'
      cases hs'
    | false =>
      rw [he] at hs'
      obtain rfl := Option.some.inj hs'
      refine ⟨⟨known.delay, known.failures, known.since, known.sustained⟩, ?_⟩
      intro hpos
      -- one failure more is still below the limit, for the peer was spared
      have spared : ¬ ((ledgerOf p key m.history).fail p m.now).Exhausted p := fun hx =>
        absurd (exhausted.2 hx) (by rw [he]; decide)
      have below := bounded hpos
      show ((ledgerOf p key m.history).fail p m.now).failures < p.maxFailures.toNat
      cases hsus : p.isSustained (Clock.since m.now (ledgerOf p key m.history).since) with
      | false => simpa [Ledger.fail, hsus] using below
      | true =>
        have spared' : ¬ (ledgerOf p key m.history).failures + 1 = p.maxFailures.toNat := fun heq =>
          spared ⟨hsus, hpos, by simpa [Ledger.fail, hsus] using heq⟩
        simp only [Ledger.fail, hsus, if_true]
        exact Nat.lt_of_le_of_ne below spared'
  · cases m.policy.isExhausted slot.peer.failures <;> simp [Happening.concerns]

/-- The slot of a peer takes another place, and no failure is being reported. -/
theorem put {m m' : Members} {fs fs' : List Frame} (h : Booked p ⟨fs, m⟩) (key : PeerKey)
    {slot : Slot} {what : Happening} (slots : m'.slots = m.slots.insert key slot)
    (policy : m'.policy = m.policy) (initial : m'.initialDelay = m.initialDelay)
    (now : m'.now = m.now) (history : m'.history = ⟨m.now, what⟩ :: m.history)
    (concerns : ∀ k, what.concerns k = (key == k))
    (calm : ∀ k slot delay, Frame.failing k slot delay ∉ fs)
    (calm' : ∀ k slot delay, Frame.failing k slot delay ∉ fs')
    (earned : EarnedAt p (ledgerOf p key m.history) ⟨m.now, what⟩)
    (known : Matches p ((ledgerOf p key m.history).after p ⟨m.now, what⟩) slot.peer)
    (bounded : ((ledgerOf p key m.history).after p ⟨m.now, what⟩).Bounded p) :
    Booked p ⟨fs', m'⟩ := by
  refine h.local_change key history (fun k hk => by simp [concerns, Ne.symm hk]) policy initial now
    ?_ (fun k slot' delay => iff_of_false (calm' k slot' delay) ?_) earned
    ?_ (by simp [concerns])
  · intro k hk
    show m'.slots.find? k = _
    rw [slots, KeyMap.find?_insert, if_neg hk]
  · exact fun hand => calm k slot' delay hand.2
  · intro slot' hs'
    have hs : m'.slots.find? key = some slot' := hs'
    rw [slots, KeyMap.find?_insert, if_pos rfl] at hs
    obtain rfl := Option.some.inj hs
    exact ⟨known, bounded⟩

/-- A peer is not tracked any more. -/
theorem drop {m m' : Members} {fs fs' : List Frame} (h : Booked p ⟨fs, m⟩) (key : PeerKey)
    (slots : m'.slots = m.slots.erase key)
    (policy : m'.policy = m.policy) (initial : m'.initialDelay = m.initialDelay)
    (now : m'.now = m.now) (history : m'.history = ⟨m.now, .dropped key⟩ :: m.history)
    (calm : ∀ k slot delay, Frame.failing k slot delay ∉ fs)
    (calm' : ∀ k slot delay, Frame.failing k slot delay ∉ fs') : Booked p ⟨fs', m'⟩ := by
  refine h.local_change key history (fun k hk => by simp [Happening.concerns, Ne.symm hk]) policy
    initial now ?_ (fun k slot' delay => iff_of_false (calm' k slot' delay) ?_) trivial
    ?_ (by simp [Happening.concerns])
  · intro k hk
    show m'.slots.find? k = _
    rw [slots, KeyMap.find?_erase, if_neg hk]
  · exact fun hand => calm k slot' delay hand.2
  · intro slot' hs'
    have hs : m'.slots.find? key = some slot' := hs'
    rw [slots, KeyMap.find?_erase, if_pos rfl] at hs
    cases hs

/-- The record of a directory plays no part. -/
theorem refresh {m : Members} {fs : List Frame} {slot : Slot} {r : Record} (h : Booked p ⟨fs, m⟩)
    (hs : m.slots.find? r.key = some slot) (calm : ∀ k slot delay, Frame.failing k slot delay ∉ fs) :
    Booked p ⟨fs, m.setSlot r.key { slot with peer := { slot.peer with record := r } }⟩ where
  policy := h.policy
  initial := h.initial
  settled k slot' hs' hr := by
    have hput := (KeyMap.find?_insert m.slots r.key k
      { slot with peer := { slot.peer with record := r } }).symm.trans hs'
    by_cases hk : k = r.key
    · rw [if_pos hk] at hput
      obtain rfl := Option.some.inj hput
      obtain ⟨known, bounded⟩ := h.settled r.key slot hs fun ⟨_, _, hm⟩ => calm _ _ _ hm
      rw [hk]
      exact ⟨⟨known.delay, known.failures, known.since, known.sustained⟩, bounded⟩
    · rw [if_neg hk] at hput
      exact h.settled k slot' hput hr
  reported k slot' delay hm := absurd hm (calm k slot' delay)
  earned := h.earned

theorem bounded_zero {l : Ledger} (h : l.failures = 0) : l.Bounded p := fun hpos => by
  rw [h]
  exact UInt32.lt_iff_toNat_lt.1 hpos

theorem delay_zero {l : Ledger} (hp : p.initialDelay ≤ p.maxDelay) (h : l.reconnects = 0) :
    p.initialDelay.nanos = l.delay p := by
  unfold Ledger.delay
  rw [h, Nat.pow_zero, Nat.mul_one]
  exact (Nat.min_eq_left hp).symm

theorem restore {m : Members} {candidates : KeyMap Record} {slot : Slot} {r : Record}
    (hp : p.initialDelay ≤ p.maxDelay) (h : Booked p ⟨[.cycling candidates], m⟩)
    (hs : m.slots.find? r.key = some slot) (hf : slot.peer.failed = true) :
    Booked p ⟨[.announcing, .cycling candidates], record (.added r)
      (((m.dropTimer slot.timer).setSlot r.key { slot.cancel with peer := m.restoredPeer slot r }).note
        (.restored r.key slot.peer.sustained))⟩ := by
  obtain ⟨known, bounded⟩ := h.settled r.key slot hs (by simp [Reporting])
  have hpolicy : m.policy = p := h.policy
  have hsus : slot.peer.sustained = (ledgerOf p r.key m.history).sustained := known.sustained hf
  refine h.put r.key rfl rfl rfl rfl rfl (fun k => rfl) (by simp) (by simp) ?_ ?_ ?_
  · cases hc : slot.peer.sustained with
    | false => trivial
    | true => exact hsus.symm.trans hc
  · cases hc : slot.peer.sustained with
    | false =>
      rw [hc] at hsus
      unfold restoredPeer
      simp only [Slot.cancel, hc]
      exact ⟨known.delay, known.failures, rfl, fun hx => by cases hx⟩
    | true =>
      unfold restoredPeer
      simp only [Slot.cancel, hc, resetCounters, hpolicy]
      exact ⟨delay_zero hp rfl, rfl, rfl, fun hx => by cases hx⟩
  · cases slot.peer.sustained with
    | false => exact bounded
    | true => exact bounded_zero rfl

theorem step (hp : p.initialDelay ≤ p.maxDelay) (h : Booked p s) (sound : Sound s) (st : Step s s') :
    Booked p s' := by
  cases st with
  | aside journal reactions used =>
    exact h.congr rfl rfl rfl rfl (fun _ => rfl) (fun _ => id) fun _ _ _ => Iff.rfl
  | reply reply => exact h.congr rfl rfl rfl rfl (fun _ => rfl) (fun _ => id) fun _ _ _ => Iff.rfl
  | count hf => exact h.congr rfl rfl rfl rfl (fun _ => rfl) (fun _ => id) fun _ _ _ => Iff.rfl
  | fail tracked healthy => exact h.fail sound tracked healthy
  | settle => exact h.settle sound
  | @reconnect m slot t armed due tracked failed =>
    obtain ⟨known, bounded⟩ := h.settled t.key slot tracked (by simp [Reporting])
    have hpolicy : m.policy = p := h.policy
    refine h.put t.key rfl rfl rfl rfl rfl (fun k => rfl) (by simp) (by simp) trivial ?_ bounded
    refine ⟨?_, known.failures, rfl, fun hx => by cases hx⟩
    show (m.policy.nextDelay slot.peer.delay).nanos = _
    rw [hpolicy, nextDelay_nanos, known.delay]
    exact double_delay _ _ _
  | reconnected => exact h.congr rfl rfl rfl rfl (fun _ => rfl) (fun _ => id) (by simp)
  | enter candidates own =>
    exact h.congr rfl rfl rfl rfl (fun _ => rfl) (fun _ => earned_of_other rfl) (by simp)
  | leave => exact h.congr rfl rfl rfl rfl (fun _ => rfl) (fun _ => earned_of_other rfl) (by simp)
  | @withdraw m candidates key slot tracked healthy unlisted =>
    exact h.drop key rfl rfl rfl rfl rfl (by simp) (by simp)
  | withdrawn => exact h.congr rfl rfl rfl rfl (fun _ => rfl) (fun _ => id) (by simp)
  | @drop m candidates key slot tracked failed unlisted =>
    exact h.drop key rfl rfl rfl rfl rfl (by simp) (by simp)
  | restore tracked failed listed => exact h.restore hp tracked failed
  | @reset m candidates slot r tracked healthy listed sustained =>
    obtain ⟨known, bounded⟩ := h.settled r.key slot tracked (by simp [Reporting])
    have hpolicy : m.policy = p := h.policy
    refine h.put r.key rfl rfl rfl rfl rfl (fun k => rfl) (by simp) (by simp) ?_ ?_
      (bounded_zero rfl)
    · show p.isSustained (Clock.since m.now (ledgerOf p r.key m.history).since) = true
      rw [← known.since, ← hpolicy]
      exact sustained
    · refine ⟨?_, rfl, known.since, fun hx => absurd (healthy.symm.trans hx) (by decide)⟩
      show m.policy.initialDelay.nanos = _
      rw [hpolicy]
      exact delay_zero hp rfl
  | refresh tracked listed => exact h.refresh tracked (by simp)
  | @enlist m candidates r running admitted untracked listed =>
    refine h.put r.key rfl rfl rfl rfl rfl (fun k => rfl) (by simp) (by simp) trivial ?_
      (bounded_zero rfl)
    refine ⟨?_, rfl, rfl, fun hx => by cases hx⟩
    show m.initialDelay.nanos = _
    rw [show m.initialDelay = p.initialDelay from h.initial]
    exact delay_zero hp rfl
  | announced => exact h.congr rfl rfl rfl rfl (fun _ => rfl) (fun _ => id) (by simp)

theorem lasting (hp : p.initialDelay ≤ p.maxDelay) : Lasting (Booked p) where
  step sound h st := h.step hp sound st
  pass _ _ h _ _ _ := ⟨h.policy, h.initial, h.settled, fun _ _ _ hm => (by cases hm), h.earned⟩
  pardon _ h := h.congr rfl rfl rfl rfl (fun _ => rfl) (fun _ => earned_of_other rfl) fun _ _ _ => Iff.rfl
  close _ h := ⟨h.policy, h.initial, fun _ _ hs => (by cases hs), fun _ _ _ hm => (by cases hm),
    fun key => ⟨fun _ => trivial, h.earned key⟩⟩

theorem initially (reactions : List Reaction) : Booked p ⟨[], .initial p p.initialDelay reactions⟩ :=
  ⟨rfl, rfl, fun _ _ hs => (by cases hs), fun _ _ _ hm => (by cases hm), fun _ => trivial⟩

end Booked

/-! ## What a report of a failure answers -/

/-- The answer to the report that a healthy peer failed. -/
theorem fail_outcome {m : Members} (hp : m.Polite) {key : PeerKey} {slot : Slot}
    (hs : m.slot? key = some slot) (hh : slot.peer.failed = false) :
    (m.fail Members.tell key).1 =
      if m.policy.isExhausted (m.noteFailure slot.peer).2.failures then
        .excluded (m.noteFailure slot.peer).2.failures
      else .scheduled (m.noteFailure slot.peer).1 (m.noteFailure slot.peer).2.sustained
        (m.noteFailure slot.peer).2.failures := by
  have told := tell_tells [] (.removed key)
    (m.setSlot key { slot with peer := (m.noteFailure slot.peer).2 }) hp
  have hpolicy : (Members.tell (.removed key)
      (m.setSlot key { slot with peer := (m.noteFailure slot.peer).2 })).policy = m.policy :=
    told.fixed.1
  unfold Members.fail
  rw [hs]
  dsimp only
  rw [hh, if_neg (by decide)]
  unfold afterFailure
  rw [show ((Members.tell (.removed key) (m.setSlot key
    { slot with peer := (m.noteFailure slot.peer).2 })).count Tally.removed).policy = m.policy from
      hpolicy]
  split <;> rfl

/-- The same answer in terms of the ledger. -/
theorem Booked.fail_answer {p : Policy} {m : Members} (h : Booked p ⟨[], m⟩)
    (sound : Sound ⟨[], m⟩) (polite : m.Polite) {key : PeerKey} {slot : Slot}
    (hs : m.slots.find? key = some slot) (hh : slot.peer.failed = false) :
    let l := ledgerOf p key m.history
    let counted := p.isSustained (Clock.since m.now l.since)
    (m.fail Members.tell key).1 =
      if counted = true ∧ 0 < p.maxFailures ∧ l.failures + 1 = p.maxFailures.toNat then
        .excluded p.maxFailures
      else .scheduled (if counted then slot.peer.delay else p.minConnectTime) counted
        (if counted then slot.peer.failures + 1 else slot.peer.failures) := by
  intro l counted
  have hslot := slot?_eq_some_iff.2 ⟨hs, (sound.own key slot hs).1⟩
  obtain ⟨noted, bounded, -⟩ := h.noteFailure hs (not_reporting_nil key)
  have same := (h.settled key slot hs (not_reporting_nil key)).1
  have hpolicy : m.policy = p := h.policy
  have hcounted : m.policy.isSustained (m.connectedFor slot.peer) = counted := by
    rw [hpolicy, connectedFor, same.since]
  have exhausted := (exhausted_iff bounded noted.failures).trans fail_exhausted_iff
  refine (fail_outcome polite hslot hh).trans ?_
  rw [hpolicy]
  by_cases hx : p.isExhausted (m.noteFailure slot.peer).2.failures = true
  · have hfull := ((exhausted_iff bounded noted.failures).1 hx).2.2
    rw [if_pos hx, if_pos (exhausted.1 hx)]
    refine congrArg FailOutcome.excluded (UInt32.toNat_inj.1 ?_)
    rw [noted.failures, hfull]
    exact Nat.mod_eq_of_lt p.maxFailures.toNat_lt_size
  · rw [if_neg hx, if_neg fun hlast => hx (exhausted.2 hlast)]
    unfold Members.noteFailure
    rw [hcounted, hpolicy]

/-- A counter of a peer that may still fail is below the limit, and exact. -/
theorem Matches.below {p : Policy} {l : Ledger} {peer : Tracked} (same : Matches p l peer)
    (bounded : l.Bounded p) (limited : 0 < p.maxFailures) :
    l.failures < UInt32.size ∧ peer.failures < p.maxFailures := by
  have below := bounded limited
  have small := Nat.lt_trans below p.maxFailures.toNat_lt_size
  refine ⟨small, UInt32.lt_iff_toNat_lt.2 ?_⟩
  rw [same.failures, Nat.mod_eq_of_lt small]
  exact below

/-- Valid settings begin with a delay below the ceiling. -/
theorem delays_of_valid {config : Config} (h : config.validate = .ok ()) :
    config.policy.initialDelay ≤ config.policy.maxDelay := by
  unfold Config.validate at h
  split at h
  · cases h
  · split at h
    · cases h
    · split at h
      · cases h
      · split at h
        · cases h
        · next hnot => exact Nat.le_of_not_lt hnot

/-! ## Discovery -/

namespace Engine

/-- **Delays and failure counts in closed form.** Of a tracked peer let `r` be the reconnects by its
timer and `f` the failures of connections that had lasted, both since it was last tracked or reset.
Its delay is the initial one times `2 ^ r`, up to the ceiling, and its counter is `f`, below the limit
if there is one. A report of a failure excludes a healthy peer if and only if the failure counts and
`f` reaches the limit; else the peer waits for its delay if the failure counts, and for the minimum
connect time if not. The same holds of every failure on record, whoever reported it. Counters are
reset only in a cycle that lists the peer, and only if its connection had lasted. -/
theorem counters_in_closed_form {config : Config} {e : Engine} (h : Reachable config e) :
    (∀ key peer, e.members.find? key = some peer →
      let l := ledgerOf config.policy key e.members.history
      peer.delay.nanos =
        min (config.initialReconnectDelay.nanos * 2 ^ l.reconnects) config.maxReconnectDelay.nanos ∧
      (l.failures < UInt32.size → peer.failures.toNat = l.failures) ∧
      (0 < config.maxReconnectAttempts →
        l.failures < UInt32.size ∧ peer.failures < config.maxReconnectAttempts)) ∧
    (∀ key peer, e.members.find? key = some peer → peer.failed = false →
      let l := ledgerOf config.policy key e.members.history
      let counted := decide (config.minConnectTime ≤ Clock.since e.now l.since)
      (e.fail key).1 =
        if counted = true ∧ 0 < config.maxReconnectAttempts ∧
            l.failures + 1 = config.maxReconnectAttempts.toNat then
          .excluded config.maxReconnectAttempts
        else .scheduled (if counted then peer.delay else config.minConnectTime) counted
          (if counted then peer.failures + 1 else peer.failures)) ∧
    (∀ key x later past, e.members.history = later ++ x :: past →
      let l := ledgerOf config.policy key past
      let counted := decide (config.minConnectTime ≤ Clock.since x.time l.since)
      let last := counted = true ∧ 0 < config.maxReconnectAttempts ∧
        l.failures + 1 = config.maxReconnectAttempts.toNat
      (x.what = .excluded key → last) ∧
      (∀ delay c, x.what = .scheduled key delay c → ¬ last ∧ c = counted ∧ delay.nanos =
        if counted then
          min (config.initialReconnectDelay.nanos * 2 ^ l.reconnects) config.maxReconnectDelay.nanos
        else config.minConnectTime.nanos) ∧
      (x.what = .reset key → Lists past key ∧ counted = true) ∧
      (x.what = .restored key true → Lists past key ∧ l.sustained = true)) := by
  have ordered := h.orderly
  have booked : Booked config.policy ⟨[], e.members⟩ :=
    h.keeps (Booked.lasting (delays_of_valid h.valid)) Booked.initially
  have chronicle : Chronicle ⟨[], e.members⟩ :=
    h.keeps Chronicle.lasting fun _ => Chronicle.initial _ _ _
  refine ⟨?_, ?_, ?_⟩
  · intro key peer hpeer
    obtain ⟨slot, hs, rfl⟩ := ordered.sound.find?_eq_some_iff.1 hpeer
    obtain ⟨same, bounded⟩ := booked.settled key slot hs (not_reporting_nil key)
    exact ⟨same.delay, fun hlt => same.failures.trans (Nat.mod_eq_of_lt hlt), same.below bounded⟩
  · intro key peer hpeer hh
    obtain ⟨slot, hs, rfl⟩ := ordered.sound.find?_eq_some_iff.1 hpeer
    exact booked.fail_answer ordered.sound ordered.polite hs hh
  · intro key x later past hist
    have earned : ∀ what, x.what = what → what.concerns key = true →
        EarnedAt config.policy (ledgerOf config.policy key past) ⟨x.time, what⟩ := fun what hx hc =>
      hx ▸ earnedAt_of_earned (hist ▸ booked.earned key) (hx ▸ hc)
    have allowed : ∀ what, x.what = what → what.concerns key = true →
        Allowed key past ⟨x.time, what⟩ := fun what hx hc =>
      hx ▸ allowed_of_lawful (hist ▸ (chronicle.peers key).lawful) (hx ▸ hc)
    have self : (key == key) = true := beq_self_eq_true key
    refine ⟨?_, ?_, ?_, ?_⟩
    · intro hx
      exact fail_exhausted_iff.1 (earned _ hx self)
    · intro delay c hx
      obtain ⟨hc, hdelay, hspared⟩ := earned _ hx self
      exact ⟨fun hlast => hspared (fail_exhausted_iff.2 hlast), hc, hdelay⟩
    · intro hx
      exact ⟨lists_of_allowed (.inl rfl) (allowed _ hx self), earned _ hx self⟩
    · intro hx
      exact ⟨lists_of_allowed (.inr ⟨_, rfl⟩) (allowed _ hx self), earned _ hx self⟩

/-- After a counted failure, a reconnect and a failure right after it, the delay has doubled once and
one failure counts. The failure of another peer that has been connected all the while would count. -/
theorem counters_after_flap : ∃ e,
    session .standard (.fixed ⟨[.plain "b" 0, .plain "a" 0]⟩) []
      [.turn .loop, .turn (.resume 0), .turn (.resume 0), .wait 1000000000, .fail ⟨"a"⟩,
        .turn (.arm 0), .wait 2000000000, .turn (.fire 0), .fail ⟨"a"⟩] = some e ∧
    (∃ peer, e.members.find? ⟨"a"⟩ = some peer ∧ peer.delay.nanos =
      min (Config.standard.initialReconnectDelay.nanos * 2 ^ 1) Config.standard.maxReconnectDelay.nanos ∧
      peer.failures.toNat = 1) ∧
    ∃ peer, e.members.find? ⟨"b"⟩ = some peer ∧
      (e.fail ⟨"b"⟩).1 = .scheduled peer.delay true (peer.failures + 1) := by
  obtain ⟨e, he, hp⟩ := (Option.any_eq_true _ _).1 (show
    (session .standard (.fixed ⟨[.plain "b" 0, .plain "a" 0]⟩) []
      [.turn .loop, .turn (.resume 0), .turn (.resume 0), .wait 1000000000, .fail ⟨"a"⟩,
        .turn (.arm 0), .wait 2000000000, .turn (.fire 0), .fail ⟨"a"⟩]).any (fun e =>
          let a := ledgerOf Config.standard.policy ⟨"a"⟩ e.members.history
          let b := ledgerOf Config.standard.policy ⟨"b"⟩ e.members.history
          ((e.members.find? ⟨"a"⟩).isSome && (e.members.find? ⟨"b"⟩).any (!·.failed)) &&
            ((a.reconnects == 1 && a.failures == 1) && (b.failures == 0 &&
              decide (Config.standard.minConnectTime ≤ Clock.since e.now b.since)))) = true by
                decide +kernel)
  obtain ⟨peers, ledgers⟩ := Bool.and_eq_true_iff.1 hp
  obtain ⟨ha, hb⟩ := Bool.and_eq_true_iff.1 peers
  obtain ⟨hledger, hledger'⟩ := Bool.and_eq_true_iff.1 ledgers
  obtain ⟨hr, hf⟩ := Bool.and_eq_true_iff.1 hledger
  obtain ⟨hf', hc⟩ := Bool.and_eq_true_iff.1 hledger'
  obtain ⟨closed, answer, -⟩ := counters_in_closed_form (reachable_of_session (by simp) he)
  obtain ⟨peer, hpeer⟩ := Option.isSome_iff_exists.1 ha
  obtain ⟨peer', hpeer', hhealthy⟩ := (Option.any_eq_true _ _).1 hb
  obtain ⟨hdelay, hexact, -⟩ := closed _ peer hpeer
  refine ⟨e, he, ⟨peer, hpeer, ?_, ?_⟩, peer', hpeer', ?_⟩
  · rw [hdelay, eq_of_beq hr]
  · rw [hexact (by rw [eq_of_beq hf]; decide), eq_of_beq hf]
  · rw [answer _ peer' hpeer' (by simpa using hhealthy)]
    simp only [eq_of_beq hf', hc]
    rfl

end Engine

end Roster
