import Mathlib.Data.List.Chain
import Roster.Proofs.Outage
import Roster.Proofs.Persistence
import Roster.Proofs.Series

/-!
# Proofs.Timetable — when the poll loop serves its ticks

* `Tick`, `Engine.ticks`: the ticks that are served during a run. `Tick.HaveRoom`: the clock can represent
  what comes after them.
* `Treads`: where the poll loop can go from where it stands, and the clock with it. `act_treads`: no
  deed takes it anywhere else.
* `following`: the first whole number of intervals after a time. `nextTick_eq`: the tick that is due
  next.
* `Punctual`: the ticks so far and the place of the loop keep the timetable. `Punctual.treads`,
  `punctual_of_leads`: one deed, and a run.
* `ticks_keep_time`: the timetable in closed form. `waits_beyond_the_clock`: where it ends.
-/

namespace Roster

open Members Relation

/-! ## Ticks -/

/-- A tick of the poll loop. -/
structure Tick where
  /-- When it was served. -/
  served : Nat
  /-- When its cycle was over, if it is. -/
  finished : Option Nat
deriving DecidableEq

/-- The ticks, the latest first, once the poll loop has gone from one place to another. -/
def Tick.mark (before after : Loop) (time : Nat) (ticks : List Tick) : List Tick :=
  match before, after with
  | .cycling _ _, .cycling _ _ => ticks
  | .cycling _ _, _ => ticks.modifyHead fun tick => { tick with finished := some time }
  | _, .cycling _ _ => ⟨time, none⟩ :: ticks
  | _, _ => ticks

/-- Nothing changes about when a tick was served. -/
theorem Tick.served_mark {before after : Loop} {time : Nat} {ticks : List Tick} {tick : Tick}
    (h : tick ∈ ticks) : ∃ tick' ∈ Tick.mark before after time ticks, tick'.served = tick.served := by
  unfold mark
  split
  · exact ⟨tick, h, rfl⟩
  · cases ticks with
    | nil => cases h
    | cons latest earlier =>
      rcases List.mem_cons.1 h with rfl | h
      · exact ⟨_, List.mem_cons_self, rfl⟩
      · exact ⟨tick, List.mem_cons_of_mem _ h, rfl⟩
  · exact ⟨tick, List.mem_cons_of_mem _ h, rfl⟩
  · exact ⟨tick, h, rfl⟩

/-- The clock can represent the point an interval after each of these ticks. -/
def Tick.HaveRoom (interval : Duration) (ticks : List Tick) : Prop :=
  ∀ tick ∈ ticks, tick.served + interval.nanos < Clock.horizon

/-- The moment at which the poll loop goes on by itself. -/
def Loop.moment? (now : Nat) : Loop → Option Nat
  | .starting => some now
  | .delaying ends => some ends
  | .waiting due => some (Clock.roundUp due)
  | _ => none

namespace Engine

variable {config : Config} {e e' : Engine} {run : Run} {deed : Deed}

/-- The ticks that are served during a run, the latest first. -/
def ticks (e : Engine) : List Deed → List Tick
  | [] => []
  | deed :: deeds => Tick.mark (e.after deeds).loop ((e.after deeds).act deed).loop
      ((e.after deeds).act deed).now (e.ticks deeds)

/-! ## The clock -/

theorem Quietly.now (q : Quietly e e') : e'.now = e.now := by
  induction q with
  | refl => rfl
  | tail _ q ih =>
    refine Eq.trans ?_ ih
    cases q with
    | aside a => exact congrArg Members.now a.members
    | _ => rfl

theorem Elsewhere.now (x : Elsewhere e e') : e'.now = e.now := by
  cases x with
  | mk members fresh later now closed jobs alarms finished => exact now

theorem Orderly.works_now (h : Orderly config e) (w : Works e e') : e'.now = e.now := by
  cases w with
  | quiet q => exact q.now
  | answer before id answer after =>
    rename_i e₁
    calc e'.now
      _ = (e₁.conclusion id answer).now := after.now
      _ = (e₁.resolve answer).2.now := by simp only [Engine.conclusion, now]
      _ = e₁.now := (Elsewhere.resolve (h.aside before) answer).now
      _ = e.now := congrArg Members.now before.members

/-- The clock moves only when time passes. -/
theorem act_now (h : Orderly config e) (allowed : e.Allows deed) (still : ∀ time, deed ≠ .wait time) :
    (e.act deed).now = e.now := by
  cases deed with
  | turn job heeds =>
    cases hjob : job.timer? with
    | none => exact h.works_now (turn_works hjob)
    | some timer => exact (h.timer_elsewhere hjob allowed).now
  | wait time => exact absurd rfl (still time)
  | fail key => exact (Elsewhere.fail h key).now
  | pardon key => exact (Elsewhere.pardon e key).now
  | call => exact (ask_quietly trivial).now
  | spawn => exact (ask_quietly trivial).now
  | cancel => exact (ask_quietly trivial).now
  | stop => exact (ask_quietly trivial).now
  | release => exact (ask_quietly trivial).now
  | serve directory => exact (ask_quietly trivial).now

/-! ## The poll loop -/

/-- Where the poll loop can go from where it stands, and how far the clock moves with it. -/
inductive Treads (config : Config) : Loop → Nat → Loop → Nat → Prop where
  /-- It stays. The clock does not pass the moment at which the loop goes on. -/
  | stays {loop : Loop} {now time : Nat} (later : now ≤ time)
      (early : ∀ moment ∈ loop.moment? now, time ≤ max now moment) : Treads config loop now loop time
  /-- It waits for the time of its first tick. -/
  | delays {now : Nat} (delay : config.initialDelay.isZero = false) :
      Treads config .starting now (.delaying (Clock.after now config.initialDelay)) now
  /-- It serves the first tick without a delay. -/
  | begins {now id : Nat} (promptly : config.initialDelay.isZero = true) :
      Treads config .starting now (.cycling id (nextTick config.queryInterval now now)) now
  /-- It serves the first tick after the delay. -/
  | opens {ends now id : Nat} (come : ends ≤ now) :
      Treads config (.delaying ends) now (.cycling id (nextTick config.queryInterval now now)) now
  /-- It serves a tick that it has waited for. -/
  | serves {due now id : Nat} (come : Clock.roundUp due ≤ now) :
      Treads config (.waiting due) now (.cycling id (nextTick config.queryInterval due now)) now
  /-- Its cycle is over. -/
  | returns {id next now : Nat} : Treads config (.cycling id next) now (.waiting next) now
  /-- It ends. -/
  | ends {loop : Loop} {now : Nat} : Treads config loop now .ended now

theorem Treads.still {loop : Loop} {now : Nat} : Treads config loop now loop now :=
  .stays (Nat.le_refl _) fun _ _ => Nat.le_max_left _ _

theorem serveTick_loop (e : Engine) (due : Nat) : (e.serveTick due).loop =
    .cycling e.started (nextTick e.config.queryInterval due e.now) := takeTurn_loop _ _

theorem goOnAt_loop (e : Engine) (due : Nat) (job : Job) : (e.goOnAt due job).loop = e.loop := by
  obtain ⟨first, later, heq, -⟩ := goOnAt_eq e due job
  rw [heq]

theorem resumeLoop_treads (settings : e.config = config) :
    Treads config e.loop e.now e.resumeLoop.loop e.now := by
  subst settings
  unfold resumeLoop
  split
  · exact .ends
  · split
    · next hl =>
      rw [hl]
      split
      · next promptly =>
        rw [serveTick_loop]
        exact .begins promptly
      · next delay =>
        have delays : Treads e.config .starting e.now
            (.delaying (Clock.after e.now e.config.initialDelay)) e.now :=
          .delays (Bool.eq_false_iff.2 delay)
        -- the end of the wait stays a name: to compare it with a number takes long
        obtain ⟨ends, hends⟩ : ∃ ends, Clock.after e.now e.config.initialDelay = ends := ⟨_, rfl⟩
        rw [hends] at delays ⊢
        dsimp only
        rw [goOnAt_loop]
        exact delays
    · next hl =>
      split
      · next come =>
        rw [hl, serveTick_loop]
        exact .opens come
      · exact .still
    · next hl =>
      split
      · next come =>
        rw [hl, serveTick_loop]
        exact .serves come
      · exact .still
    · exact .still

theorem awaitTick_loop (e : Engine) (due : Nat) : (e.awaitTick due).loop = .waiting due := by
  unfold awaitTick
  rw [goOnAt_loop]

/-- The loop goes on to wait after a cycle, or it ends. -/
theorem afterCycle_loop {next : Nat} (hl : ∃ id, e.loop = .cycling id next) (result : CycleResult) :
    (e.afterCycle result).loop = .waiting next ∨ (e.afterCycle result).loop = .ended := by
  obtain ⟨id, hl⟩ := hl
  unfold afterCycle
  rw [hl]
  cases result with
  | ok report => exact .inl (awaitTick_loop e next)
  | error error =>
    dsimp only
    split
    · exact .inr rfl
    · exact .inl (awaitTick_loop e next)

theorem finish_loop {next : Nat} (hl : ∃ id, e.loop = .cycling id next) (own : run.ofLoop = true)
    (result : CycleResult) :
    (e.finish run result).loop = .waiting next ∨ (e.finish run result).loop = .ended := by
  obtain ⟨turn, queue, woken, heq, -⟩ := passTurn_eq (e.dropRun run.id)
  unfold Engine.finish
  rw [own, heq]
  dsimp only
  rw [if_pos rfl]
  refine afterCycle_loop ?_ result
  exact hl

/-- A job takes the poll loop no further than that. -/
theorem Taken.treads {job : Job} (t : Taken e job e') (settings : e.config = config)
    (own : ∀ run ∈ e.runs, run.ofLoop = true → ∃ next, e.loop = .cycling run.id next) :
    Treads config e.loop e.now e'.loop e.now := by
  rcases t.loop_cases with same | ⟨-, rfl⟩ | ⟨run, hrun, ofLoop, ⟨-, rfl⟩ | ⟨-, finished⟩⟩
  · rw [same]
    exact .still
  · exact resumeLoop_treads settings
  · obtain ⟨turn, queue, woken, heq, -⟩ := abandon_eq e run
    rw [heq]
    exact .ends
  · obtain ⟨e₁, result, elsewhere, rfl, -⟩ := finished
    obtain ⟨next, hl⟩ := own run hrun ofLoop
    have hl₁ : e₁.loop = .cycling run.id next := by
      cases elsewhere
      exact hl
    rw [hl]
    rcases finish_loop ⟨_, hl₁⟩ ofLoop result with h | h
    · rw [h]
      exact .returns
    · rw [h]
      exact .ends

/-- Time does not pass the moment at which the poll loop goes on. -/
theorem Polls.early (h : e.Polls) {time : Nat} (allowed : e.Allows (.wait time)) :
    ∀ moment ∈ e.loop.moment? e.now, time ≤ max e.now moment := by
  obtain ⟨idle, -, -, early⟩ := allowed
  have alarmed : ∀ moment, e.Awaits moment .loop → time ≤ max e.now moment := by
    rintro moment (⟨-, hjob⟩ | ha)
    · rw [idle] at hjob
      cases hjob
    · exact Nat.le_trans (early _ ha) (Nat.le_max_right _ _)
  intro moment hm
  unfold Polls at h
  cases hl : e.loop with
  | ended => rw [hl] at hm; cases hm
  | cycling id next => rw [hl] at hm; cases hm
  | starting =>
    rw [hl] at h
    rw [idle] at h
    cases h
  | delaying ends =>
    rw [hl] at h hm
    obtain rfl := Option.some.inj hm
    exact alarmed _ h
  | waiting due =>
    rw [hl] at h hm
    obtain rfl := Option.some.inj hm
    exact alarmed _ h

theorem jump_now (e : Engine) (time : Nat) : (e.jump time).now = time := by
  obtain ⟨woken, heq, -⟩ := jump_eq e time
  rw [heq]
  rfl

/-- **No deed takes the poll loop anywhere else**, nor the clock. -/
theorem act_treads (ordered : Orderly config e) (underway : Underway e) (allowed : e.Allows deed) :
    Treads config e.loop e.now (e.act deed).loop (e.act deed).now := by
  rcases deed.turn_or_other with ⟨job, heeds, rfl⟩ | other
  · rw [act_now ordered allowed (by simp)]
    exact (underway.turns.taken ordered allowed).treads ordered.settings underway.polling.own
  · rw [act_loop e other]
    by_cases passes : ∃ time, deed = .wait time
    · obtain ⟨time, rfl⟩ := passes
      rw [show (e.act (.wait time)).now = time from jump_now e time]
      exact .stays allowed.2.1 (underway.polling.polls.early allowed)
    · rw [act_now ordered allowed fun time h => passes ⟨time, h⟩]
      exact .still

/-! ## Intervals -/

/-- The first time after another that lies a whole number of intervals `p` after `t₀`. -/
def following (t₀ p time : Nat) : Nat := t₀ + p * ((time - t₀) / p + 1)

variable {t₀ p time : Nat}

/-- A tick that is late by no more than the tolerance is followed by the one an interval later, another
by the first one that is still to come. With a longer interval this is the same. -/
theorem nextTick_eq {interval : Duration} (wide : tolerance < interval.nanos) {due now : Nat} (k : Nat)
    (hdue : due = t₀ + interval.nanos * k) (come : due ≤ now)
    (room : now + interval.nanos < Clock.horizon) :
    nextTick interval due now = following t₀ interval.nanos now := by
  have hp : 0 < interval.nanos := Nat.zero_lt_of_lt wide
  have past : (now - t₀) / interval.nanos = k + (now - due) / interval.nanos := by
    rw [show now - t₀ = now - due + interval.nanos * k by omega, Nat.add_mul_div_left _ _ hp,
      Nat.add_comm]
  unfold nextTick following
  rw [Clock.later_of_lt (show due + interval.nanos < Clock.horizon by omega), past, Nat.mul_succ,
    Nat.mul_add, ← Nat.add_assoc, ← Nat.add_assoc, ← hdue]
  split
  · rw [Nat.div_eq_of_lt (show now - due < interval.nanos by omega), Nat.mul_zero, Nat.add_zero]
  · have split := Nat.div_add_mod (now - due) interval.nanos
    have short := Nat.mod_lt (now - due) hp
    omega

/-- A whole number of intervals after a tick of the clock there is one. -/
theorem following_mod (ht : t₀ % Clock.tick = 0) (hp : p % Clock.tick = 0) :
    following t₀ p time % Clock.tick = 0 := by
  unfold following
  rw [Nat.add_mod, ht, Nat.mul_mod, hp, Nat.zero_mul]
  rfl

/-! ## The timetable -/

/-- One tick comes after another: it is served when the cycle of that one is over and its own time has
come. -/
def Precedes (t₀ p : Nat) (tick next : Tick) : Prop :=
  ∃ r, tick.finished = some r ∧ next.served = max r (following t₀ p tick.served)

/-- Where the poll loop stands after these ticks, the latest first, and what time it can be. -/
inductive OnTime (start t₀ p : Nat) : Loop → Nat → List Tick → Prop where
  | starting : OnTime start t₀ p .starting start []
  | delaying {now : Nat} (early : now ≤ t₀) : OnTime start t₀ p (.delaying t₀) now []
  | cycling {id s now : Nat} {earlier : List Tick} :
      OnTime start t₀ p (.cycling id (following t₀ p s)) now (⟨s, none⟩ :: earlier)
  | waiting {s r now : Nat} {earlier : List Tick} (later : r ≤ now)
      (early : now ≤ max r (following t₀ p s)) :
      OnTime start t₀ p (.waiting (following t₀ p s)) now (⟨s, some r⟩ :: earlier)
  | ended {now : Nat} {ticks : List Tick} : OnTime start t₀ p .ended now ticks

/-- The ticks, the latest first, and the place of the poll loop keep the timetable. -/
structure Punctual (start t₀ p : Nat) (loop : Loop) (now : Nat) (ticks : List Tick) : Prop where
  stands : OnTime start t₀ p loop now ticks
  first : ∀ tick ∈ ticks.getLast?, tick.served = t₀
  chain : ticks.IsChain fun next tick => Precedes t₀ p tick next

/-- Before the loop ends, the clock passes neither the first tick nor the one that is next. -/
theorem OnTime.early {start now : Nat} {loop : Loop} {ticks : List Tick}
    (h : OnTime start t₀ p loop now ticks) (going : loop ≠ .ended) (begun : start ≤ t₀) :
    (ticks = [] → now ≤ t₀) ∧
      ∀ last ∈ ticks.head?, ∀ r ∈ last.finished, now ≤ max r (following t₀ p last.served) := by
  cases h with
  | starting => exact ⟨fun _ => begun, by simp⟩
  | delaying early => exact ⟨fun _ => early, by simp⟩
  | cycling => exact ⟨by simp, by simp⟩
  | waiting later early =>
    refine ⟨by simp, fun last hlast r hr => ?_⟩
    obtain rfl := Option.some.inj hlast
    obtain rfl := Option.some.inj hr
    exact early
  | ended => exact absurd rfl going

section Step

variable {start : Nat} {loop loop' : Loop} {now now' : Nat} {ticks : List Tick}

/-- When the cycle of a tick is over, nothing else changes about the ticks. -/
theorem Punctual.finish {tick : Tick} {earlier : List Tick} (finished : Option Nat)
    (h : Punctual start t₀ p loop now (tick :: earlier))
    (stands : OnTime start t₀ p loop' now' ({ tick with finished } :: earlier)) :
    Punctual start t₀ p loop' now' ({ tick with finished } :: earlier) := by
  obtain ⟨-, first, chain⟩ := h
  cases earlier with
  | nil => exact ⟨stands, by simpa using first, .singleton _⟩
  | cons latest rest =>
    obtain ⟨precedes, chain⟩ := List.isChain_cons_cons.1 chain
    exact ⟨stands, by simpa using first, .cons_cons precedes chain⟩

variable (moment : t₀ = start + config.initialDelay.nanos) (delay : config.initialDelay.FitsFrom start)
  (interval : config.queryInterval.nanos % Clock.tick = 0)
  (wide : tolerance < config.queryInterval.nanos)

include wide in
/-- The first tick is served. -/
theorem Punctual.opening (id : Nat) (room : t₀ + config.queryInterval.nanos < Clock.horizon) :
    Punctual start t₀ config.queryInterval.nanos
      (.cycling id (nextTick config.queryInterval t₀ t₀)) t₀ [⟨t₀, none⟩] := by
  have next : nextTick config.queryInterval t₀ t₀ = following t₀ config.queryInterval.nanos t₀ :=
    nextTick_eq wide 0 rfl (Nat.le_refl t₀) room
  rw [next]
  exact ⟨.cycling, by simp, .singleton _⟩

include moment delay interval wide

/-- **Wherever the poll loop can go, it keeps the timetable**, as long as the clock has room for another
interval after each tick. -/
theorem Punctual.treads (ticking : start % Clock.tick = 0)
    (h : Punctual start t₀ config.queryInterval.nanos loop now ticks)
    (t : Treads config loop now loop' now')
    (room : Tick.HaveRoom config.queryInterval (Tick.mark loop loop' now' ticks)) :
    Punctual start t₀ config.queryInterval.nanos loop' now' (Tick.mark loop loop' now' ticks) := by
  have t₀_mod : t₀ % Clock.tick = 0 := by
    rw [moment, Nat.add_mod, ticking, delay.1]
    rfl
  obtain ⟨stands, first, chain⟩ := id h
  cases t with
  | stays later early =>
    cases stands with
    | starting =>
      have same : now' = start := Nat.le_antisymm (by simpa using early start rfl) later
      rw [same]
      exact ⟨.starting, first, chain⟩
    | delaying before =>
      have within := early _ rfl
      exact ⟨.delaying (by omega), first, chain⟩
    | cycling => exact ⟨.cycling, first, chain⟩
    | waiting since before =>
      have within := early _ rfl
      rw [Clock.roundUp_of_mod (following_mod t₀_mod interval)] at within
      exact ⟨.waiting (by omega) (by omega), first, chain⟩
    | ended => exact ⟨.ended, first, chain⟩
  | delays delayed =>
    cases stands
    rw [after_of_ticks ticking delay.1 delay.2, ← moment]
    exact ⟨.delaying (by omega), first, chain⟩
  | begins promptly =>
    cases stands
    obtain rfl : t₀ = start := by simpa [moment, Duration.isZero] using promptly
    exact .opening wide _ (room _ List.mem_cons_self)
  | opens come =>
    cases stands with
    | delaying before =>
      obtain rfl := Nat.le_antisymm before come
      exact .opening wide _ (room _ List.mem_cons_self)
  | serves come =>
    cases stands with
    | @waiting s r _ earlier since before =>
      rw [Clock.roundUp_of_mod (following_mod t₀_mod interval)] at come
      have next : nextTick config.queryInterval (following t₀ config.queryInterval.nanos s) now =
          following t₀ config.queryInterval.nanos now :=
        nextTick_eq wide _ rfl come (room _ List.mem_cons_self)
      rw [next]
      have served : now = max r (following t₀ config.queryInterval.nanos s) := by omega
      exact ⟨.cycling, by simpa [Tick.mark] using first, .cons_cons ⟨r, rfl, served⟩ chain⟩
  | returns =>
    cases stands with
    | cycling => exact h.finish _ (.waiting (Nat.le_refl _) (Nat.le_max_left _ _))
  | ends =>
    cases stands with
    | cycling => exact h.finish _ .ended
    | _ => exact ⟨.ended, first, chain⟩

end Step

theorem start_loop {directory : Directory} {reactions : List Reaction}
    (h : start config directory reactions = .ok e) : e.loop = .starting := by
  unfold start at h
  split at h
  · cases h
  · split at h
    · cases h
    · obtain rfl := Except.ok.inj h
      rfl

/-- **Every run keeps the timetable**, as long as the clock has room for it. -/
theorem punctual_of_leads {directory : Directory} {reactions : List Reaction} {e₀ : Engine}
    {deeds : List Deed} (polite : ∀ r ∈ reactions, Reaction.OnlyReports r)
    (h₀ : start config directory reactions = .ok e₀) (l : Leads e₀ deeds e)
    (delay : config.initialDelay.FitsFrom e₀.now)
    (interval : config.queryInterval.nanos % Clock.tick = 0)
    (wide : tolerance < config.queryInterval.nanos)
    (room : Tick.HaveRoom config.queryInterval (e₀.ticks deeds)) :
    Punctual e₀.now (e₀.now + config.initialDelay.nanos) config.queryInterval.nanos e.loop e.now
      (e₀.ticks deeds) := by
  have ordered₀ := (start_orderly polite h₀).2
  have underway₀ := start_underway h₀
  induction l with
  | start =>
    rw [start_loop h₀]
    exact ⟨.starting, by simp [ticks], .nil⟩
  | next before deed allowed ih =>
    have treads := act_treads (ordered₀.leads before).2 (underway₀.leads ordered₀ before) allowed
    have earlier : Tick.HaveRoom config.queryInterval (e₀.ticks _) := fun tick ht => by
      obtain ⟨tick', ht', served⟩ := Tick.served_mark ht
      exact served ▸ room tick' ht'
    rw [before.eq_after] at ih treads ⊢
    exact (ih earlier).treads rfl delay interval wide ordered₀.ticks treads room

/-! ## Sessions -/

/-- The start of a session and the ticks that are served through deeds, the first one first; none if one
of them cannot happen. -/
def timetable (config : Config) (directory : Directory) (reactions : List Reaction)
    (deeds : List Deed) : Option (Nat × List Tick) :=
  match start config directory reactions with
  | .ok e₀ => (e₀.replay deeds).map fun _ => (e₀.now, (e₀.ticks deeds.reverse).reverse)
  | .error _ => none

theorem leads_of_timetable {directory : Directory} {reactions : List Reaction} {deeds : List Deed}
    {begins : Nat} {ticks : List Tick}
    (h : timetable config directory reactions deeds = some (begins, ticks)) :
    ∃ e₀ e, start config directory reactions = .ok e₀ ∧ Leads e₀ deeds.reverse e ∧
      e₀.now = begins ∧ (e₀.ticks deeds.reverse).reverse = ticks := by
  unfold timetable at h
  split at h
  · next e₀ h₀ =>
    obtain ⟨e, he, h⟩ := Option.map_eq_some_iff.1 h
    obtain ⟨begin, ticked⟩ := Prod.mk.inj h
    exact ⟨e₀, e, h₀, replay_leads he, begin, ticked⟩
  · cases h

/-! ## The timetable in closed form -/

section Order

variable {ticks : List Tick} (chain : ticks.IsChain (Precedes t₀ p))

include chain

theorem precedes_of_getElem? {i : Nat} {a b : Tick} (ha : ticks[i]? = some a)
    (hb : ticks[i + 1]? = some b) : Precedes t₀ p a b := by
  obtain ⟨hi, rfl⟩ := List.getElem?_eq_some_iff.1 hb
  obtain ⟨-, rfl⟩ := List.getElem?_eq_some_iff.1 ha
  exact List.isChain_iff_getElem.1 chain i hi

/-- After a tick that was late because of the cycle before it, no tick is served before the next whole
number of intervals. -/
theorem once_after_overrun {i r : Nat} {a b : Tick} (ha : ticks[i]? = some a)
    (hb : ticks[i + 1]? = some b) (finished : a.finished = some r) (late : following t₀ p a.served ≤ r) :
    b.served = r ∧ ∀ c, ticks[i + 2]? = some c → following t₀ p r ≤ c.served := by
  obtain ⟨r', finished', served⟩ := precedes_of_getElem? chain ha hb
  obtain rfl := Option.some.inj (finished.symm.trans finished')
  have punctual : b.served = r := served.trans (Nat.max_eq_left late)
  refine ⟨punctual, fun c hc => ?_⟩
  obtain ⟨_, -, next⟩ := precedes_of_getElem? chain hb hc
  rw [next, punctual]
  exact Nat.le_max_right _ _

variable (hp : 0 < p)

include hp

/-- Each tick is served in a later interval than the one before. -/
theorem intervals_increase :
    ticks.Pairwise fun a b => (a.served - t₀) / p < (b.served - t₀) / p := by
  have steps : (ticks.map fun tick => (tick.served - t₀) / p).IsChain (· < ·) := by
    refine (List.isChain_map _).2 (chain.imp fun a b h => ?_)
    obtain ⟨r, -, served⟩ := h
    have due : p * ((a.served - t₀) / p + 1) ≤ b.served - t₀ := by
      rw [served, following]
      omega
    exact (Nat.le_div_iff_mul_le hp).2 (by rwa [Nat.mul_comm])
  exact List.pairwise_map.1 steps.pairwise

theorem served_increase : ticks.Pairwise (·.served < ·.served) := by
  refine (intervals_increase chain hp).imp fun h => ?_
  by_contra later
  exact absurd (Nat.div_le_div_right (Nat.sub_le_sub_right (Nat.le_of_not_lt later) t₀))
    (Nat.not_le_of_lt h)

/-- No tick is served before the first one. -/
theorem first_le_served (begins : ∀ tick ∈ ticks.head?, tick.served = t₀) :
    ∀ tick ∈ ticks, t₀ ≤ tick.served := by
  have increase := served_increase chain hp
  cases ticks with
  | nil => simp
  | cons head rest =>
    obtain ⟨after, -⟩ := List.pairwise_cons.1 increase
    have headed : head.served = t₀ := begins head rfl
    intro tick ht
    rcases List.mem_cons.1 ht with rfl | ht
    · exact Nat.le_of_eq headed.symm
    · exact headed ▸ Nat.le_of_lt (after tick ht)

/-- No more ticks are served up to a time than intervals have begun. -/
theorem served_by_le (time : Nat) :
    ticks.countP (·.served ≤ time) ≤ (time - t₀) / p + 1 := by
  have increase := ((intervals_increase chain hp).filter fun tick => tick.served ≤ time)
  have nodup := (List.pairwise_map.2 increase).imp Nat.ne_of_lt
  have subset : (ticks.filter (·.served ≤ time)).map (fun tick => (tick.served - t₀) / p) ⊆
      List.range ((time - t₀) / p + 1) := by
    intro index hi
    obtain ⟨tick, ht, rfl⟩ := List.mem_map.1 hi
    have early := of_decide_eq_true (List.mem_filter.1 ht).2
    exact List.mem_range.2 (Nat.lt_succ_of_le (Nat.div_le_div_right (Nat.sub_le_sub_right early t₀)))
  have length := (List.subperm_of_subset nodup subset).length_le
  rwa [List.length_map, List.length_range, ← List.countP_eq_length_filter] at length

end Order

/-- **The first tick is served after the initial delay, and each other one when the cycle before it is
over and the next whole number of intervals after the tick before it has come**, as long as the clock
can represent the end of the delay and the point an interval after each tick. The loop waits for it, and
the clock does not pass that moment. So ticks are served later and later, and in later and later
intervals: none that was missed is made up. After a cycle that overruns, one tick is served at once, and
then none before the next whole number of intervals. -/
theorem ticks_keep_time {directory : Directory} {reactions : List Reaction} {e₀ : Engine}
    {deeds : List Deed} (polite : ∀ r ∈ reactions, Reaction.OnlyReports r)
    (h₀ : start config directory reactions = .ok e₀) (l : Leads e₀ deeds e)
    (delay : config.initialDelay.FitsFrom e₀.now)
    (interval : config.queryInterval.nanos % Clock.tick = 0)
    (wide : tolerance < config.queryInterval.nanos)
    (room : Tick.HaveRoom config.queryInterval (e₀.ticks deeds)) :
    let t₀ := e₀.now + config.initialDelay.nanos
    let p := config.queryInterval.nanos
    let ticks := (e₀.ticks deeds).reverse
    (∀ tick ∈ ticks.head?, tick.served = t₀) ∧
    (∀ i a b, ticks[i]? = some a → ticks[i + 1]? = some b →
      ∃ r, a.finished = some r ∧ b.served = max r (t₀ + p * ((a.served - t₀) / p + 1))) ∧
    (e.loop ≠ .ended → e.Polls ∧ (ticks = [] → e.now ≤ t₀) ∧ ∀ last ∈ ticks.getLast?, ∀ r ∈ last.finished,
      e.now ≤ max r (t₀ + p * ((last.served - t₀) / p + 1))) ∧
    (∀ tick ∈ ticks, t₀ ≤ tick.served) ∧
    ticks.Pairwise (·.served < ·.served) ∧
    (∀ time, t₀ ≤ time → ticks.countP (·.served ≤ time) ≤ (time - t₀) / p + 1) ∧
    (∀ i a b r, ticks[i]? = some a → ticks[i + 1]? = some b → a.finished = some r →
      t₀ + p * ((a.served - t₀) / p + 1) ≤ r →
        b.served = r ∧ ∀ c, ticks[i + 2]? = some c → t₀ + p * ((r - t₀) / p + 1) ≤ c.served) ∧
    ticks.Pairwise fun a b => (a.served - t₀) / p < (b.served - t₀) / p := by
  intro t₀ p ticks
  have hp : 0 < p := Nat.zero_lt_of_lt wide
  obtain ⟨stands, first, chain⟩ := punctual_of_leads polite h₀ l delay interval wide room
  have polls := ((start_underway h₀).leads (start_orderly polite h₀).2 l).polling.polls
  have begins : ∀ tick ∈ ticks.head?, tick.served = t₀ := by
    rwa [List.head?_reverse]
  have order : ticks.IsChain (Precedes t₀ p) := List.isChain_reverse.2 chain
  refine ⟨begins, fun i a b ha hb => precedes_of_getElem? order ha hb, fun going => ⟨polls, ?_⟩, ?_,
    served_increase order hp, fun time _ => served_by_le order hp time,
    fun i a b r ha hb finished late => once_after_overrun order ha hb finished late,
    intervals_increase order hp⟩
  · rw [List.reverse_eq_nil_iff, List.getLast?_reverse]
    exact stands.early going (Nat.le_add_right _ _)
  · exact first_le_served order hp begins

/-- A cycle that takes longer than two intervals is followed at once by another, and that one by the
tick for which it is time next. -/
theorem one_tick_after_overrun : ∃ e₀ e,
    start { Config.standard with queryInterval := .ofMillis 10, initialDelay := .ofMillis 3 }
      (.scripted ⟨[⟨.ok [], .ofMillis 25⟩], some ⟨.ok [], .zero⟩⟩) [] = .ok e₀ ∧
    Leads e₀ [.turn .loop, .wait 3000000, .turn .loop, .turn (.resume 0), .wait 28000000,
      .turn (.resume 0), .turn .loop, .turn (.resume 1), .turn (.resume 1), .wait 33000000,
      .turn .loop].reverse e ∧
    (e₀.ticks [.turn .loop, .wait 3000000, .turn .loop, .turn (.resume 0), .wait 28000000,
      .turn (.resume 0), .turn .loop, .turn (.resume 1), .turn (.resume 1), .wait 33000000,
      .turn .loop].reverse).reverse =
        [⟨3000000, some 28000000⟩, ⟨28000000, some 28000000⟩, ⟨33000000, none⟩] ∧
    ∀ time, 3000000 ≤ time → List.countP (fun tick : Tick => decide (tick.served ≤ time))
      [⟨3000000, some 28000000⟩, ⟨28000000, some 28000000⟩, ⟨33000000, none⟩] ≤
        (time - 3000000) / 10000000 + 1 := by
  obtain ⟨e₀, e, h₀, l, begins, ticked⟩ := leads_of_timetable (show timetable
      { Config.standard with queryInterval := .ofMillis 10, initialDelay := .ofMillis 3 }
      (.scripted ⟨[⟨.ok [], .ofMillis 25⟩], some ⟨.ok [], .zero⟩⟩) []
      [.turn .loop, .wait 3000000, .turn .loop, .turn (.resume 0), .wait 28000000,
        .turn (.resume 0), .turn .loop, .turn (.resume 1), .turn (.resume 1), .wait 33000000,
        .turn .loop] =
      some (0, [⟨3000000, some 28000000⟩, ⟨28000000, some 28000000⟩, ⟨33000000, none⟩])
    by decide +kernel)
  obtain ⟨-, -, -, -, -, bounded, -⟩ := ticks_keep_time (by simp) h₀ l
    (by rw [begins]; decide +kernel) (by decide +kernel) (by decide +kernel) (fun tick ht => by
      rw [← List.mem_reverse, ticked] at ht
      revert tick
      decide +kernel)
  rw [begins, ticked] at bounded
  exact ⟨e₀, e, h₀, l, ticked, bounded⟩

/-- A wait whose end the clock cannot represent ends after thirty years. So does an initial delay of
`2^63` seconds, before the first tick, and so does an interval of one second less after a first tick
that is served a second after the start. -/
theorem waits_beyond_the_clock :
    (∃ e₀ e, start { Config.standard with initialDelay := .ofSeconds (2 ^ 63) }
        (.scripted ⟨[], some ⟨.ok [], .zero⟩⟩) [] = .ok e₀ ∧
      Leads e₀ [.turn .loop, .wait Clock.thirtyYears, .turn .loop].reverse e ∧
      (e₀.ticks [.turn .loop, .wait Clock.thirtyYears, .turn .loop].reverse).reverse =
        [⟨Clock.thirtyYears, none⟩] ∧
      (Duration.ofSeconds (2 ^ 63)).nanos % Clock.tick = 0 ∧
      Clock.thirtyYears ≠ e₀.now + (Duration.ofSeconds (2 ^ 63)).nanos) ∧
    ∃ e₀ e, start { Config.standard with
        initialDelay := .ofSeconds 1, queryInterval := .ofSeconds (2 ^ 63 - 1) }
        (.scripted ⟨[], some ⟨.ok [], .zero⟩⟩) [] = .ok e₀ ∧
      Leads e₀ [.turn .loop, .wait 1000000000, .turn .loop, .turn (.resume 0), .turn (.resume 0),
        .wait (1000000000 + Clock.thirtyYears), .turn .loop].reverse e ∧
      (e₀.ticks [.turn .loop, .wait 1000000000, .turn .loop, .turn (.resume 0), .turn (.resume 0),
        .wait (1000000000 + Clock.thirtyYears), .turn .loop].reverse).reverse =
          [⟨1000000000, some 1000000000⟩, ⟨1000000000 + Clock.thirtyYears, none⟩] ∧
      e₀.now + (Duration.ofSeconds 1).nanos = 1000000000 ∧
      1000000000 + Clock.thirtyYears ≠ max 1000000000
        (1000000000 + (Duration.ofSeconds (2 ^ 63 - 1)).nanos *
          ((1000000000 - 1000000000) / (Duration.ofSeconds (2 ^ 63 - 1)).nanos + 1)) := by
  constructor
  · obtain ⟨e₀, e, h₀, l, begins, ticked⟩ := leads_of_timetable (show timetable
      { Config.standard with initialDelay := .ofSeconds (2 ^ 63) }
      (.scripted ⟨[], some ⟨.ok [], .zero⟩⟩) [] [.turn .loop, .wait Clock.thirtyYears, .turn .loop] =
      some (0, [⟨Clock.thirtyYears, none⟩]) by decide +kernel)
    exact ⟨e₀, e, h₀, l, ticked, by decide +kernel, by rw [begins]; decide +kernel⟩
  · obtain ⟨e₀, e, h₀, l, begins, ticked⟩ := leads_of_timetable (show timetable
      { Config.standard with
        initialDelay := .ofSeconds 1, queryInterval := .ofSeconds (2 ^ 63 - 1) }
      (.scripted ⟨[], some ⟨.ok [], .zero⟩⟩) [] [.turn .loop, .wait 1000000000, .turn .loop,
        .turn (.resume 0), .turn (.resume 0), .wait (1000000000 + Clock.thirtyYears), .turn .loop] =
      some (0, [⟨1000000000, some 1000000000⟩, ⟨1000000000 + Clock.thirtyYears, none⟩])
      by decide +kernel)
    exact ⟨e₀, e, h₀, l, ticked, by rw [begins]; decide +kernel, by decide +kernel⟩

end Engine

end Roster
