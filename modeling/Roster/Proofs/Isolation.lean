import Roster.Proofs.Standing

/-!
# Proofs.Isolation — no peer notices what happens to another

Two courses of events may differ in all that concerns the other peers. As far as one peer goes they
come to the same. The listener does not answer here.

* `Matter`: what may concern a peer. `Standing.meet`: what this makes of it. `Incident.standing`: that
  is all an incident does to a peer.
* `matters`: what concerned a peer in a course of events. `occasions`: the same without its timer, which
  nobody has to report.
* `outlook`: how a peer stands after some occasions, its timer included. `Foreseen`: so it stands.
* `peers_are_isolated`: the same occasions lead to the same.
-/

namespace Roster

open Members Relation

/-- What may concern a peer. -/
inductive Matter where
  /-- Its reconnect timer goes off. -/
  | ring
  | fail
  | pardon
  /-- Everything is over. -/
  | close
  /-- A cycle lists it with a record, or not at all. -/
  | cycle (listed : Option Record)
deriving DecidableEq

namespace Standing

variable {rules : Members} {key : PeerKey} {s : Standing}

/-- A peer that nobody has heard of. -/
def start : Standing := ⟨none, false, false, [], []⟩

/-- What becomes of a peer with a matter that concerns it. -/
def meet (rules : Members) (key : PeerKey) (s : Standing) : Matter → Standing
  | .ring => s.rung rules
  | .fail => s.fails rules key
  | .pardon => { s with excluded := false }
  | .close => { s with peer := none, closed := true, deadlines := [] }
  | .cycle listed => s.cycled rules key listed

@[simp] theorem rung_deadlines : (s.rung rules).deadlines = [] := by
  unfold rung
  split <;> rfl

theorem fails_deadlines {due : Nat} (h : due ∈ (s.fails rules key).deadlines) :
    due ∈ s.deadlines ∨ rules.now ≤ due := by
  unfold fails at h
  split at h
  · exact .inl h
  · dsimp only at h
    split at h
    · exact .inl h
    · split at h
      · cases h
      · rw [List.mem_singleton.1 h]
        exact .inr (Clock.le_after _ _)

theorem cycled_deadlines {listed : Option Record} {due : Nat}
    (h : due ∈ (s.cycled rules key listed).deadlines) : due ∈ s.deadlines := by
  unfold cycled withdrawn presented enrolled at h
  repeat' split at h
  all_goals first | exact h | cases h

/-- A timer that is armed with some matter is not due before. -/
theorem meet_deadlines {matter : Matter} {due : Nat} (h : due ∈ (s.meet rules key matter).deadlines) :
    due ∈ s.deadlines ∨ rules.now ≤ due := by
  cases matter with
  | ring =>
    rw [meet, rung_deadlines] at h
    cases h
  | fail => exact fails_deadlines h
  | pardon => exact .inl h
  | close => cases h
  | cycle listed => exact .inl (cycled_deadlines h)

end Standing

/-! ## One incident -/

/-- Slots and timers agree, and the listener does not answer. -/
structure Calm (m : Members) : Prop where
  sound : Sound ⟨[], m⟩
  plain : m.reactions = []

namespace Incident

variable {m : Members} {key : PeerKey}

/-- When it can happen: a timer goes off when it is due, the clock does not pass a timer, and
candidates are listed under their own keys. -/
def Proper (m : Members) : Incident → Prop
  | fire timer => ∀ t ∈ m.timers, t.id = timer → t.due = m.now
  | pass time => m.now ≤ time ∧ ∀ t ∈ m.timers, time ≤ t.due
  | apply candidates => ∀ e ∈ candidates.entries, e.2.key = e.1
  | _ => True

instance (m : Members) : (i : Incident) → Decidable (i.Proper m)
  | fire timer => inferInstanceAs (Decidable (∀ t ∈ m.timers, t.id = timer → t.due = m.now))
  | pass time => inferInstanceAs (Decidable (m.now ≤ time ∧ ∀ t ∈ m.timers, time ≤ t.due))
  | apply candidates => inferInstanceAs (Decidable (∀ e ∈ candidates.entries, e.2.key = e.1))
  | fail _ => .isTrue trivial
  | pardon _ => .isTrue trivial
  | close => .isTrue trivial

/-- What it is to a peer. -/
def matter? (key : PeerKey) (m : Members) : Incident → Option Matter
  | fire timer => (m.timers.find? (·.id == timer)).bind fun t =>
      if t.key = key then some .ring else none
  | fail k => if k = key then some .fail else none
  | pardon k => if k = key then some .pardon else none
  | pass _ => none
  | close => some .close
  | apply candidates => some (.cycle (candidates.find? key))

/-- The clock stands still unless time passes. The rules never change. -/
def clock (m : Members) : Incident → Nat
  | pass time => time
  | _ => m.now

theorem calm (calm : Calm m) {i : Incident} (proper : i.Proper m) : Calm (i.carryOut m) := by
  cases i with
  | fire timer =>
    have st := (fire_steps tell_tells calm.sound (polite_of_plain calm.plain) proper).1
    exact ⟨calm.sound.steps st, st.plain calm.plain⟩
  | fail key =>
    have st := fail_steps tell_tells [] (polite_of_plain calm.plain) key
    exact ⟨calm.sound.steps st, st.plain calm.plain⟩
  | pardon key => exact ⟨calm.sound.move (.pardon key), calm.plain⟩
  | pass time =>
    exact ⟨calm.sound.congr rfl (fun _ => id) rfl rfl rfl (fun _ _ _ => Iff.rfl) calm.sound.apart,
      calm.plain⟩
  | close => exact ⟨calm.sound.close, calm.plain⟩
  | apply candidates =>
    obtain ⟨sound, plain, -⟩ := reconcile_standing calm.sound calm.plain proper ⟨""⟩
    exact ⟨sound, plain⟩

theorem rules (calm : Calm m) {i : Incident} (proper : i.Proper m) :
    (i.carryOut m).rules = m.rules.asOf (i.clock m) := by
  have same : ∀ {m'}, Steps ⟨[], m⟩ ⟨[], m'⟩ → m'.rules = m.rules := fun st => by
    obtain ⟨policy, delay, now, -⟩ := st.fixed
    dsimp only at policy delay now
    rw [Members.rules, policy, delay, now, Members.rules]
  cases i with
  | fire timer => exact same (fire_steps tell_tells calm.sound (polite_of_plain calm.plain) proper).1
  | fail key => exact same (fail_steps tell_tells [] (polite_of_plain calm.plain) key)
  | pardon key => rfl
  | pass time => rfl
  | close => rfl
  | apply candidates => exact (reconcile_standing calm.sound calm.plain proper ⟨""⟩).2.2.1

theorem now (calm : Calm m) {i : Incident} (proper : i.Proper m) :
    (i.carryOut m).now = i.clock m := by
  show (i.carryOut m).rules.now = _
  rw [rules calm proper]
  rfl

/-- What concerns a peer happens at the present time. -/
theorem clock_of_matter {i : Incident} {matter : Matter} (h : i.matter? key m = some matter) :
    i.clock m = m.now := by
  cases i with
  | pass time => cases h
  | _ => rfl

/-- A timer that goes off is the only one of its peer, and due. -/
theorem deadlines_of_ring (calm : Calm m) {i : Incident} (proper : i.Proper m)
    (h : i.matter? key m = some .ring) : (m.standing key).deadlines = [m.now] := by
  cases i with
  | fire timer =>
    obtain ⟨t, ht, hk⟩ := Option.bind_eq_some_iff.1 h
    have armed := List.mem_of_find?_eq_some ht
    obtain rfl : t.key = key := by
      by_contra hne
      rw [if_neg hne] at hk
      cases hk
    obtain ⟨slot, w⟩ := calm.sound.held armed
    show (m.timersOf t.key).map (·.due) = _
    rw [w.alone, List.map_singleton, proper t armed (by simpa using List.find?_some ht)]
  | fail k =>
    rw [matter?] at h
    split at h <;> cases h
  | pardon k =>
    rw [matter?] at h
    split at h <;> cases h
  | _ => cases h

/-- What concerns one peer only is nothing to another. -/
theorem standing_of_own {m' : Members} {k : PeerKey} {matter : Matter}
    (h : m'.standing key =
      if key = k then (m.standing k).meet m.rules k matter else m.standing key) :
    m'.standing key = (if k = key then some matter else none).elim (m.standing key)
      ((m.standing key).meet m.rules key) := by
  rw [h]
  by_cases hk : k = key
  · rw [if_pos hk.symm, if_pos hk, hk]
    rfl
  · rw [if_neg (Ne.symm hk), if_neg hk]
    rfl

/-- **All that an incident does to a peer** is what concerns it. -/
theorem standing (calm : Calm m) {i : Incident} (proper : i.Proper m) (key : PeerKey) :
    (i.carryOut m).standing key =
      (i.matter? key m).elim (m.standing key) ((m.standing key).meet m.rules key) := by
  cases i with
  | fire timer =>
    cases ht : m.timers.find? (·.id == timer) with
    | none =>
      rw [carryOut, Members.fire, matter?, ht]
      rfl
    | some t =>
      rw [matter?, ht]
      exact standing_of_own (fire_standing calm.sound calm.plain ht key)
  | fail k => exact standing_of_own (fail_standing calm.sound calm.plain k key)
  | pardon k => exact standing_of_own (pardon_standing m k key)
  | pass time => rfl
  | close => exact close_standing calm.sound key
  | apply candidates => exact (reconcile_standing calm.sound calm.plain proper key).2.2.2

end Incident

/-! ## Many incidents -/

/-- The members after some incidents, latest first. -/
def Members.after (m : Members) (course : List Incident) : Members :=
  course.foldr Incident.carryOut m

/-- Each incident, latest first, can happen after those before. -/
def Unfolds (m : Members) : List Incident → Prop
  | [] => True
  | i :: past => Unfolds m past ∧ i.Proper (m.after past)

instance Unfolds.decidable (m : Members) : (course : List Incident) → Decidable (Unfolds m course)
  | [] => .isTrue trivial
  | i :: past =>
    have := Unfolds.decidable m past
    inferInstanceAs (Decidable (Unfolds m past ∧ i.Proper (m.after past)))

/-- What concerned a peer, and when; latest first. -/
def matters (key : PeerKey) (m : Members) : List Incident → List (Nat × Matter)
  | [] => []
  | i :: past =>
    match i.matter? key (m.after past) with
    | none => matters key m past
    | some matter => ((m.after past).now, matter) :: matters key m past

/-- Something that concerned a peer, apart from its timer. -/
structure Occasion where
  time : Nat
  /-- How often the timer had gone off at this very time. -/
  rings : Nat
  matter : Matter
deriving DecidableEq

/-- What concerned a peer apart from its timer, latest first. -/
def occasions : List (Nat × Matter) → List Occasion
  | [] => []
  | (time, matter) :: past =>
    if matter = .ring then occasions past
    else ⟨time, past.count (time, .ring), matter⟩ :: occasions past

/-- How often the timer had gone off at this time when the latest occasion came. -/
def since (time : Nat) : List Occasion → Nat
  | [] => 0
  | o :: _ => if o.time = time then o.rings else 0

theorem since_le_count (time : Nat) (past : List (Nat × Matter)) :
    since time (occasions past) ≤ past.count (time, .ring) := by
  induction past with
  | nil => exact Nat.le_refl 0
  | cons x past ih =>
    obtain ⟨t, matter⟩ := x
    have more : past.count (time, .ring) ≤ ((t, matter) :: past).count (time, .ring) :=
      List.count_le_count_cons
    rw [occasions]
    split
    · exact Nat.le_trans ih more
    · rw [since]
      split
      · next ht => exact ht ▸ more
      · exact Nat.zero_le _

/-! ## How a peer stands -/

/-- The timer of the peer goes off if it was to by now. -/
def Standing.settle (rules : Members) (before now rings : Nat) (s : Standing) : Standing :=
  match s.deadlines with
  | [] => s
  | due :: _ => if due < now ∨ due = now ∧ before < rings then s.rung (rules.asOf due) else s

/-- How a peer stands after the latest of some occasions. -/
def outlook (rules : Members) (key : PeerKey) : List Occasion → Standing
  | [] => .start
  | o :: past =>
    ((outlook rules key past).settle rules (since o.time past) o.time o.rings).meet
      (rules.asOf o.time) key o.matter

/-- How a peer stands at a time when its timer has gone off so many times at that very time. -/
def presently (rules : Members) (key : PeerKey) (past : List Occasion) (now rings : Nat) : Standing :=
  (outlook rules key past).settle rules (since now past) now rings

theorem Standing.settle_of_quiet {rules : Members} {before now rings : Nat} {s : Standing}
    (h : ∀ due ∈ s.deadlines, now ≤ due ∧ (due = now → rings ≤ before)) :
    s.settle rules before now rings = s := by
  unfold settle
  split
  · rfl
  · next due later heq =>
    obtain ⟨early, told⟩ := h due (by simp [heq])
    refine if_neg ?_
    rintro (late | ⟨rfl, more⟩)
    · omega
    · have := told rfl
      omega

/-- A peer that still waits for its timer is as it was. -/
theorem Standing.settle_of_waiting {rules : Members} {before now rings : Nat} {s : Standing}
    (h : (s.settle rules before now rings).deadlines ≠ []) :
    s.settle rules before now rings = s := by
  unfold settle at h ⊢
  split
  · rfl
  · next due later heq =>
    rw [heq] at h
    dsimp only at h
    split
    · next rang => simp [rang] at h
    · rfl

theorem Standing.settle_later {rules : Members} {before now rings time : Nat} {s : Standing}
    (later : now < time) (ahead : ∀ due ∈ (s.settle rules before now rings).deadlines, time ≤ due) :
    s.settle rules before now rings = s.settle rules 0 time 0 := by
  unfold settle at ahead ⊢
  split
  · rfl
  · next due rest heq =>
    rw [heq] at ahead
    dsimp only at ahead
    by_cases rang : due < now ∨ due = now ∧ before < rings
    · rw [if_pos rang, if_pos (by omega)]
    · rw [if_neg rang] at ahead ⊢
      have := ahead due (by simp [heq])
      rw [if_neg (by omega)]

/-- A peer stands as its occasions say. -/
structure Foreseen (rules : Members) (key : PeerKey) (m : Members) (past : List (Nat × Matter)) :
    Prop where
  calm : Calm m
  same : m.rules = rules.asOf m.now
  standing : m.standing key = presently rules key (occasions past) m.now (past.count (m.now, .ring))
  behind : ∀ x ∈ past, x.1 ≤ m.now
  ahead : ∀ due ∈ (m.standing key).deadlines, m.now ≤ due

namespace Foreseen

variable {rules m : Members} {key : PeerKey} {past : List (Nat × Matter)} {i : Incident}

theorem same_after (h : Foreseen rules key m past) (proper : i.Proper m) :
    (i.carryOut m).rules = rules.asOf (i.carryOut m).now := by
  rw [Incident.rules h.calm proper, h.same, Incident.now h.calm proper]
  rfl

/-- Nothing that concerned the peer lies ahead, not even what does now. -/
theorem behind_cons (h : Foreseen rules key m past) (matter : Matter) :
    ∀ x ∈ (m.now, matter) :: past, x.1 ≤ m.now := by
  intro x hx
  rcases List.mem_cons.1 hx with rfl | hx
  · exact Nat.le_refl _
  · exact h.behind x hx

/-- Something else happens at the present time. -/
theorem elsewhere (h : Foreseen rules key m past) (proper : i.Proper m)
    (aside : i.matter? key m = none) (still : i.clock m = m.now) :
    Foreseen rules key (i.carryOut m) past := by
  have now := (Incident.now h.calm proper).trans still
  have same := Incident.standing h.calm proper key
  rw [aside] at same
  refine ⟨Incident.calm h.calm proper, h.same_after proper, ?_, ?_, ?_⟩
  · rw [same, now]
    exact h.standing
  · rw [now]
    exact h.behind
  · rw [same, now]
    exact h.ahead

/-- Time passes. If the timer has gone off since the latest occasion, then at the time that is over. -/
theorem passes (h : Foreseen rules key m past) {time : Nat} (later : m.now ≤ time)
    (ahead : ∀ t ∈ m.timers, time ≤ t.due) : Foreseen rules key { m with now := time } past := by
  have due : ∀ d ∈ (m.standing key).deadlines, time ≤ d := by
    intro d hd
    obtain ⟨t, ht, rfl⟩ := List.mem_map.1 hd
    exact ahead t (mem_timersOf.1 ht).1
  refine ⟨Incident.calm (i := .pass time) h.calm ⟨later, ahead⟩, ?_, ?_, ?_, due⟩
  · show m.rules.asOf time = _
    rw [h.same]
    rfl
  · show m.standing key = presently rules key (occasions past) time (past.count (time, .ring))
    rcases Nat.eq_or_lt_of_le later with rfl | passed
    · exact h.standing
    · have silent : past.count (time, .ring) = 0 := List.count_eq_zero.2 fun hm => by
        have := h.behind _ hm
        dsimp only at this
        omega
      have none : since time (occasions past) = 0 := by
        have := since_le_count time past
        omega
      rw [h.standing] at due
      rw [presently, silent, none, h.standing]
      exact Standing.settle_later passed due
  · exact fun x hx => Nat.le_trans (h.behind x hx) later

/-- The timer goes off. -/
theorem rings (h : Foreseen rules key m past) (proper : i.Proper m)
    (mine : i.matter? key m = some .ring) :
    Foreseen rules key (i.carryOut m) ((m.now, .ring) :: past) := by
  have now := (Incident.now h.calm proper).trans (Incident.clock_of_matter mine)
  have rung := Incident.standing h.calm proper key
  have waits := Incident.deadlines_of_ring h.calm proper mine
  have before := h.standing
  rw [mine] at rung
  have still : m.standing key = outlook rules key (occasions past) := by
    rw [before]
    refine Standing.settle_of_waiting ?_
    show (presently rules key (occasions past) m.now _).deadlines ≠ []
    rw [← before, waits]
    exact List.cons_ne_nil _ _
  have now' : since m.now (occasions past) < past.count (m.now, .ring) + 1 :=
    Nat.lt_succ_of_le (since_le_count _ _)
  refine ⟨Incident.calm h.calm proper, h.same_after proper, ?_, ?_, ?_⟩
  · have same : occasions ((m.now, .ring) :: past) = occasions past := if_pos rfl
    rw [rung, now, List.count_cons_self, same, presently, Standing.settle, ← still, waits, h.same]
    exact (if_pos (.inr ⟨rfl, now'⟩)).symm
  · rw [now]
    exact h.behind_cons _
  · rw [rung]
    simp [Standing.meet]

/-- Something else concerns the peer. -/
theorem meets (h : Foreseen rules key m past) (proper : i.Proper m) {matter : Matter}
    (mine : i.matter? key m = some matter) (other : matter ≠ .ring) :
    Foreseen rules key (i.carryOut m) ((m.now, matter) :: past) := by
  have now := (Incident.now h.calm proper).trans (Incident.clock_of_matter mine)
  have met := Incident.standing h.calm proper key
  rw [mine] at met
  have soon : ∀ due ∈ ((m.standing key).meet m.rules key matter).deadlines, m.now ≤ due := by
    intro due hd
    rcases Standing.meet_deadlines hd with hd | hd
    · exact h.ahead due hd
    · exact hd
  have still : ((m.now, matter) :: past).count (m.now, .ring) = past.count (m.now, .ring) :=
    List.count_cons_of_ne (by simpa using other)
  have occasion : occasions ((m.now, matter) :: past) =
      ⟨m.now, past.count (m.now, .ring), matter⟩ :: occasions past := if_neg other
  have stands : outlook rules key (occasions ((m.now, matter) :: past)) =
      (m.standing key).meet m.rules key matter := by
    rw [occasion, h.standing, h.same]
    rfl
  refine ⟨Incident.calm h.calm proper, h.same_after proper, ?_, ?_, ?_⟩
  · rw [met, now, still, presently, stands, occasion, since, if_pos rfl]
    exact (Standing.settle_of_quiet fun due hd => ⟨soon due hd, fun _ => Nat.le_refl _⟩).symm
  · rw [now]
    exact h.behind_cons _
  · rw [met, now]
    exact soon

end Foreseen

/-- **So a peer stands**, whatever happened to the others. -/
theorem foreseen {policy : Policy} {delay : Duration} (key : PeerKey) {course : List Incident}
    (unfolds : Unfolds (initial policy delay []) course) :
    Foreseen (initial policy delay []) key ((initial policy delay []).after course)
      (matters key (initial policy delay []) course) := by
  induction course with
  | nil =>
    refine ⟨⟨.initial policy delay [], rfl⟩, rfl, rfl, ?_, ?_⟩
    · intro x hx
      cases hx
    · intro due hd
      cases hd
  | cons i past ih =>
    obtain ⟨unfolds, proper⟩ := unfolds
    have h := ih unfolds
    rw [show (initial policy delay []).after (i :: past) =
      i.carryOut ((initial policy delay []).after past) from rfl, matters]
    generalize (initial policy delay []).after past = m at h proper ⊢
    cases mine : i.matter? key m with
    | none =>
      cases i with
      | pass time => exact h.passes proper.1 proper.2
      | close => cases mine
      | apply => cases mine
      | _ => exact h.elsewhere proper mine rfl
    | some matter =>
      dsimp only
      by_cases hm : matter = .ring
      · subst hm
        exact h.rings proper mine
      · exact h.meets proper mine hm

/-- **No peer notices what happens to another.** In two courses of events let the same occasions
concern a peer at the same times: the same cycles, which list it alike, the same reports of failure,
pardons and ends, in the same order, each after as many rings of its timer at that very time. As soon
as the clock stands alike and the timer has gone off as often at the present time, the peer is tracked
alike, excluded alike, waits for the same deadline and was announced and withdrawn at the same times. -/
theorem peers_are_isolated {policy : Policy} {delay : Duration} (key : PeerKey)
    {one other : List Incident} (unfolds : Unfolds (initial policy delay []) one)
    (unfolds' : Unfolds (initial policy delay []) other)
    (same : occasions (matters key (initial policy delay []) one) =
      occasions (matters key (initial policy delay []) other))
    (now : ((initial policy delay []).after one).now = ((initial policy delay []).after other).now)
    (rings : (matters key (initial policy delay []) one).count
        (((initial policy delay []).after one).now, .ring) =
      (matters key (initial policy delay []) other).count
        (((initial policy delay []).after other).now, .ring)) :
    ((initial policy delay []).after one).standing key =
      ((initial policy delay []).after other).standing key := by
  rw [(foreseen key unfolds).standing, (foreseen key unfolds').standing, same, rings, now]

/-- Of two others one fails in the one course, the other in the other. A third peer, which fails and
comes back in both, does not notice. -/
theorem failures_elsewhere_go_unnoticed : ∃ one other,
    one = [.fire 1, .pass 3000000000, .fail ⟨"a"⟩, .fire 0, .pass 2000000000, .fail ⟨"b"⟩,
      .pass 1000000000, .apply (.ofList [(⟨"a"⟩, .plain "a" 0), (⟨"b"⟩, .plain "b" 0)])] ∧
    other = [.fail ⟨"c"⟩, .fire 0, .pass 3000000000, .fail ⟨"a"⟩, .pass 2000000000,
      .apply (.ofList [(⟨"a"⟩, .plain "a" 0), (⟨"c"⟩, .plain "c" 0)])] ∧
    Unfolds (initial .standard (.ofMillis 1000) []) one ∧
    Unfolds (initial .standard (.ofMillis 1000) []) other ∧
    ((initial .standard (.ofMillis 1000) []).after one).standing ⟨"a"⟩ =
      ((initial .standard (.ofMillis 1000) []).after other).standing ⟨"a"⟩ ∧
    (((initial .standard (.ofMillis 1000) []).after one).standing ⟨"a"⟩).notices =
      [(3000000000, .added (.plain "a" 0)), (2000000000, .removed ⟨"a"⟩), (0, .added (.plain "a" 0))] := by
  refine ⟨_, _, rfl, rfl, by decide +kernel, by decide +kernel, ?_, by decide +kernel⟩
  exact peers_are_isolated ⟨"a"⟩ (by decide +kernel) (by decide +kernel) (by decide +kernel)
    (by decide +kernel) (by decide +kernel)

end Roster
