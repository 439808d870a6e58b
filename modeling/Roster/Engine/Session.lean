import Roster.Engine.Control

/-!
# Engine.Session — everything that may happen to discovery, in any order

* `Deed`: one thing that happens: a job goes on, time passes, somebody asks for something.
* `Engine.act`, `Engine.Allows`: what it does, and when it can happen. Any job that can go on may be
  the next one.
* `Engine.Leads`: one deed after the other. `Engine.Reachable`: where discovery can be.
* `Engine.session`: where given deeds lead from the start.

What this takes for granted:

* A deed is one step. Nothing comes between the changes of a cycle that makes its candidates the
  tracked peers, of a report of a failure, or of the closing of the membership, but what the listener
  does in answer to their notices.
* Jobs take no time: while one can go on, the clock stands still. Time passes in whole ticks, and never
  past an alarm.
* Whoever wants a cycle waits for its outcome: a cycle that was called for is not given up by its
  caller.
-/

namespace Roster

/-- Something that happens to discovery. -/
inductive Deed where
  /-- A job goes on. A cycle that can go on after a pause and is asked to stop as well heeds that first,
  or not. -/
  | turn (job : Job) (heeds : Bool := false)
  /-- Time passes until `time`. -/
  | wait (time : Nat)
  /-- Somebody wants a cycle and begins it at once. -/
  | call
  /-- Somebody wants a cycle that begins as a job of its own. -/
  | spawn
  /-- Somebody reports a peer failed. -/
  | fail (key : PeerKey)
  /-- Somebody lifts an exclusion. -/
  | pardon (key : PeerKey)
  /-- Somebody asks the cycles in flight to stop. -/
  | cancel
  /-- Somebody stops discovery. -/
  | stop
  /-- The owner lets go of the instance. -/
  | release
  /-- The directory will give other answers from now on. -/
  | serve (directory : Directory)

theorem Deed.turn_or_other (deed : Deed) :
    (∃ job heeds, deed = .turn job heeds) ∨ ∀ job heeds, deed ≠ .turn job heeds := by
  cases deed with
  | turn job heeds => exact .inl ⟨job, heeds, rfl⟩
  | _ => exact .inr nofun

namespace Engine

def act (e : Engine) : Deed → Engine
  | .turn job heeds => { e with ready := e.ready.erase job }.step job heeds
  | .wait time => e.jump time
  | .call => e.call.2
  | .spawn => e.spawn.2
  | .fail key => (e.fail key).2
  | .pardon key => (e.pardon key).2
  | .cancel => e.cancel.2
  | .stop => e.stop
  | .release => e.release
  | .serve directory => { e with directory }

/-- When a deed can happen. The clock stands at whole ticks. -/
def Allows (e : Engine) : Deed → Prop
  | .turn job _ => job ∈ e.ready
  | .wait time => e.ready = [] ∧ e.now ≤ time ∧ time % Clock.tick = 0 ∧
      ∀ alarm ∈ e.alarms, time ≤ alarm.due
  | _ => True

instance (e : Engine) (deed : Deed) : Decidable (e.Allows deed) := by
  cases deed <;> unfold Allows <;> infer_instance

/-- A run from one state to another by these deeds, the latest first. -/
inductive Leads (e : Engine) : List Deed → Engine → Prop where
  | start : Leads e [] e
  | next {deeds e'} (before : Leads e deeds e') (deed : Deed) (allowed : e'.Allows deed) :
      Leads e (deed :: deeds) (e'.act deed)

/-- Where discovery can be, with these settings and any directory. The listener may report peers
failed in answer to notices; it does nothing else to the membership. -/
def Reachable (config : Config) (e : Engine) : Prop :=
  ∃ directory reactions e₀ deeds, (∀ r ∈ reactions, Reaction.OnlyReports r) ∧
    start config directory reactions = .ok e₀ ∧ Leads e₀ deeds e

/-- The run through deeds, the first one first; none if one of them cannot happen. -/
def replay (e : Engine) : List Deed → Option Engine
  | [] => some e
  | deed :: rest => if e.Allows deed then (e.act deed).replay rest else none

def session (config : Config) (directory : Directory) (reactions : List Reaction)
    (deeds : List Deed) : Option Engine :=
  match start config directory reactions with
  | .ok e => e.replay deeds
  | .error _ => none

theorem Leads.trans {e e' e'' : Engine} {deeds deeds' : List Deed} (h : Leads e deeds e')
    (h' : Leads e' deeds' e'') : Leads e (deeds' ++ deeds) e'' := by
  induction h' with
  | start => exact h
  | next _ deed allowed ih => exact .next ih deed allowed

theorem Reachable.leads {config : Config} {e e' : Engine} {deeds : List Deed}
    (h : Reachable config e) (l : Leads e deeds e') : Reachable config e' := by
  obtain ⟨directory, reactions, e₀, before, hr, h₀, l₀⟩ := h
  exact ⟨directory, reactions, e₀, deeds ++ before, hr, h₀, l₀.trans l⟩

/-- What holds at the start and survives every deed holds wherever discovery can be. -/
theorem Reachable.induct {config : Config} {e : Engine} (h : Reachable config e) {P : Engine → Prop}
    (begin : ∀ directory reactions e₀, Engine.start config directory reactions = .ok e₀ → P e₀)
    (act : ∀ e deed, Reachable config e → e.Allows deed → P e → P (e.act deed)) : P e := by
  obtain ⟨directory, reactions, e₀, deeds, hr, h₀, l⟩ := h
  have begun : Reachable config e₀ := ⟨directory, reactions, e₀, [], hr, h₀, .start⟩
  induction l with
  | start => exact begin directory reactions e₀ h₀
  | next before deed allowed ih => exact act _ deed (begun.leads before) allowed ih

theorem replay_leads {e e' : Engine} {deeds : List Deed} (h : e.replay deeds = some e') :
    Leads e deeds.reverse e' := by
  induction deeds generalizing e with
  | nil =>
    obtain rfl := Option.some.inj h
    exact .start
  | cons deed rest ih =>
    rw [replay] at h
    split at h
    · next allowed =>
      rw [List.reverse_cons]
      exact (Leads.start.next deed allowed).trans (ih h)
    · cases h

theorem leads_of_session {config : Config} {directory : Directory} {reactions : List Reaction}
    {deeds : List Deed} {e : Engine} (h : session config directory reactions deeds = some e) :
    ∃ e₀, start config directory reactions = .ok e₀ ∧ Leads e₀ deeds.reverse e := by
  unfold session at h
  split at h
  · next e₀ h₀ => exact ⟨e₀, h₀, replay_leads h⟩
  · cases h

theorem reachable_of_session {config : Config} {directory : Directory} {reactions : List Reaction}
    {deeds : List Deed} {e : Engine} (hr : ∀ r ∈ reactions, Reaction.OnlyReports r)
    (h : session config directory reactions deeds = some e) : Reachable config e := by
  obtain ⟨e₀, h₀, l⟩ := leads_of_session h
  exact ⟨directory, reactions, e₀, deeds.reverse, hr, h₀, l⟩

end Engine

end Roster
