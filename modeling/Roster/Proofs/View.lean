import Roster.Proofs.Session

/-!
# Proofs.View — the notices always add up to the healthy peers

* `Members.heard`: the notices about one peer, first one first.
* `Faithful`: each notice changes the view. `alternates_of_faithful`: so the notices about a peer
  alternate.
* `Mirror`: the view is the healthy peers. `Mirror.step`, `Mirror.lasting`: until the end it stays
  so.
* `view_is_healthy_peers`: the same for discovery, in whatever order things happen.
-/

namespace Roster

open Members Relation

/-- The notice is about a peer that entered the view. -/
def Notice.isAdded : Notice → Bool
  | .added _ => true
  | .removed _ => false

namespace Members

/-- The notice about this peer in an entry of the record, if there is one. -/
def noticeOn (key : PeerKey) : Told → Option Notice
  | .notice _ n => if n.key = key then some n else none
  | .reply _ => none

def heard (m : Members) (key : PeerKey) : List Notice := m.told.reverse.filterMap (noticeOn key)

/-- The peer is tracked and did not fail. -/
def isHealthy (m : Members) (key : PeerKey) : Bool :=
  match m.slots.find? key with
  | some slot => !slot.peer.failed
  | none => false

end Members

/-- Each notice changes the view: who is added was not in it, who is removed was. -/
def Faithful : List Told → Prop
  | [] => True
  | .notice _ n :: past => n.isAdded = !(viewOf past).contains n.key ∧ Faithful past
  | .reply _ :: past => Faithful past

/-- The view is the healthy peers, unless everything is over. -/
structure Mirror (m : Members) : Prop where
  faithful : Faithful m.told
  view : m.closed = false → ∀ key, m.view.contains key = m.isHealthy key

/-! ## The view -/

/-- A notice decides about the peer that it is about. -/
theorem viewOf_notice (time : Nat) (n : Notice) (past : List Told) (key : PeerKey) :
    (viewOf (.notice time n :: past)).contains key =
      if key = n.key then n.isAdded else (viewOf past).contains key := by
  cases n with
  | added record =>
    show ((viewOf past).insert record.key ()).contains key = _
    rw [KeyMap.contains_insert]
    by_cases h : key = record.key <;> simp [h, Notice.key, Notice.isAdded]
  | removed k =>
    show ((viewOf past).erase k).contains key = _
    rw [KeyMap.contains_erase]
    by_cases h : key = k <;> simp [h, Notice.key, Notice.isAdded]

/-- The notices about a peer alternate, and the last of them decides whether it is in the view. -/
theorem alternates_of_faithful {told : List Told} (h : Faithful told) (key : PeerKey) :
    (∀ i n, (told.reverse.filterMap (noticeOn key))[i]? = some n → n.isAdded = (i % 2 == 0)) ∧
      (viewOf told).contains key = ((told.reverse.filterMap (noticeOn key)).length % 2 == 1) := by
  induction told with
  | nil => exact ⟨fun i n hi => (by cases hi), rfl⟩
  | cons x past ih =>
    rw [List.reverse_cons, List.filterMap_append]
    cases x with
    | reply reply =>
      have hnone : List.filterMap (noticeOn key) [.reply reply] = [] := rfl
      rw [hnone, List.append_nil]
      exact ih h
    | notice time n =>
      obtain ⟨hn, hpast⟩ := h
      obtain ⟨alternate, hview⟩ := ih hpast
      rw [viewOf_notice]
      by_cases hkey : n.key = key
      · have hone : List.filterMap (noticeOn key) [.notice time n] = [n] := by simp [noticeOn, hkey]
        rw [hkey, hview] at hn
        rw [hone, if_pos hkey.symm, List.length_append, List.length_singleton]
        generalize past.reverse.filterMap (noticeOn key) = before at *
        refine ⟨?_, ?_⟩
        · intro i n' hi
          rcases Nat.lt_trichotomy i before.length with hlt | rfl | hgt
          · rw [List.getElem?_append_left hlt] at hi
            exact alternate i n' hi
          · rw [List.getElem?_append_right (Nat.le_refl _), Nat.sub_self] at hi
            obtain rfl := Option.some.inj hi
            rw [hn]
            rcases Nat.mod_two_eq_zero_or_one before.length with hz | hz <;> rw [hz] <;> rfl
          · rw [List.getElem?_eq_none (by simpa using Nat.succ_le_of_lt hgt)] at hi
            cases hi
        · rw [hn]
          rcases Nat.mod_two_eq_zero_or_one before.length with hz | hz <;>
            rw [Nat.add_mod, hz] <;> rfl
      · have hnone : List.filterMap (noticeOn key) [.notice time n] = [] := by
          simp [noticeOn, hkey]
        rw [hnone, if_neg (Ne.symm hkey), List.append_nil]
        exact ⟨alternate, hview⟩

/-! ## Steps -/

theorem faithful_notice {m : Members} {n : Notice} (h : Faithful m.told)
    (hn : n.isAdded = !m.view.contains n.key) : Faithful (record n m).told := ⟨hn, h⟩

theorem view_record (n : Notice) (m : Members) (key : PeerKey) :
    (record n m).view.contains key = if key = n.key then n.isAdded else m.view.contains key :=
  viewOf_notice _ _ _ _

/-- The healthy peers after the slot of one peer has changed. -/
theorem isHealthy_of_insert {m m' : Members} {k : PeerKey} {slot : Slot}
    (hs : m'.slots = m.slots.insert k slot) (key : PeerKey) :
    m'.isHealthy key = if key = k then !slot.peer.failed else m.isHealthy key := by
  unfold isHealthy
  rw [hs, KeyMap.find?_insert]
  by_cases hk : key = k
  · rw [if_pos hk, if_pos hk]
  · rw [if_neg hk, if_neg hk]

/-- The healthy peers after one peer was given up. -/
theorem isHealthy_of_erase {m m' : Members} {k : PeerKey}
    (hs : ∀ key, m'.slots.find? key = if key = k then none else m.slots.find? key) (key : PeerKey) :
    m'.isHealthy key = if key = k then false else m.isHealthy key := by
  unfold isHealthy
  rw [hs]
  by_cases hk : key = k
  · rw [if_pos hk, if_pos hk]
  · rw [if_neg hk, if_neg hk]

namespace Mirror

variable {s s' : Situation}

/-- Nothing that the view depends on has changed. -/
theorem congr {m m' : Members} (h : Mirror m) (told : m'.told = m.told) (closed : m'.closed = m.closed)
    (healthy : ∀ key, m'.isHealthy key = m.isHealthy key) : Mirror m' := by
  refine ⟨told ▸ h.faithful, ?_⟩
  intro hc key
  rw [healthy, ← h.view (closed ▸ hc) key, Members.view, told]
  rfl

/-- One peer enters or leaves the view, and the listener is told. -/
theorem tell {m m' : Members} {n : Notice} (h : Mirror m) (running : m.closed = false)
    (changes : m.isHealthy n.key = !n.isAdded)
    (told : m'.told = (record n m).told)
    (healthy : ∀ key, m'.isHealthy key = if key = n.key then n.isAdded else m.isHealthy key) :
    Mirror m' := by
  have hn : n.isAdded = !m.view.contains n.key := by
    rw [h.view running, changes, Bool.not_not]
  refine ⟨told ▸ faithful_notice h.faithful hn, ?_⟩
  intro _ key
  rw [healthy, Members.view, told]
  show (record n m).view.contains key = _
  rw [view_record, h.view running]

theorem step (h : Mirror s.members) (sound : Sound s) (st : Step s s') : Mirror s'.members := by
  have running : ∀ {key slot}, s.members.slots.find? key = some slot → s.members.closed = false :=
    fun {key slot} hs => by
      cases hc : s.members.closed with
      | false => rfl
      | true => rw [sound.closed hc key] at hs; cases hs
  cases st with
  | aside journal reactions used => exact h.congr rfl rfl fun _ => rfl
  | reply reply => exact ⟨h.faithful, h.view⟩
  | count hf => exact h.congr rfl rfl fun _ => rfl
  | @fail fs m key slot tracked healthy =>
    refine h.tell (n := .removed key) (running tracked) ?_ rfl ?_
    · simp [isHealthy, Notice.key, Notice.isAdded, tracked, healthy]
    · intro k
      rw [isHealthy_of_insert (m := m) rfl k]
      rfl
  | @settle fs m key slot delay =>
    obtain ⟨-, -, -, hclosed, htold, -⟩ := afterFailure_fixed (m.count Tally.removed) key slot.peer delay
    refine h.congr htold hclosed ?_
    intro k
    obtain ⟨hs, hf⟩ := sound.failing key slot delay List.mem_cons_self
    unfold isHealthy
    rw [sound.settle_find?]
    by_cases hk : k = key
    · rw [if_pos hk, hk, hs]
      split
      · next heq => split at heq <;> cases heq; rw [hf]
      · rw [hf]; rfl
    · rw [if_neg hk]
  | @reconnect m slot t armed due tracked failed =>
    have hkey : slot.peer.record.key = t.key := (sound.own _ _ tracked).2.2.1
    refine h.tell (n := .added slot.peer.record) (running tracked) ?_ rfl ?_
    · simp [isHealthy, Notice.key, Notice.isAdded, hkey, tracked, failed]
    · intro k
      rw [isHealthy_of_insert (m := m) rfl k, Notice.key, hkey]
      rfl
  | reconnected => exact h.congr rfl rfl fun _ => rfl
  | enter candidates own => exact h.congr rfl rfl fun _ => rfl
  | leave => exact h.congr rfl rfl fun _ => rfl
  | @withdraw m candidates key slot tracked healthy unlisted =>
    refine h.tell (n := .removed key) (running tracked) ?_ rfl ?_
    · simp [isHealthy, Notice.key, Notice.isAdded, tracked, healthy]
    · intro k
      exact isHealthy_of_erase (m := m) (fun k => KeyMap.find?_erase _ _ _) k
  | withdrawn => exact h.congr rfl rfl fun _ => rfl
  | @drop m candidates key slot tracked failed unlisted =>
    refine h.congr rfl rfl ?_
    intro k
    rw [isHealthy_of_erase (m := m) (fun k => KeyMap.find?_erase _ _ _) k]
    by_cases hk : k = key
    · simp [isHealthy, hk, tracked, failed]
    · rw [if_neg hk]
  | @restore m candidates slot r tracked failed listed =>
    have hback : (m.restoredPeer slot r).failed = false := by
      unfold restoredPeer
      rfl
    refine h.tell (n := .added r) (running tracked) ?_ rfl ?_
    · simp [isHealthy, Notice.key, Notice.isAdded, tracked, failed]
    · intro k
      rw [isHealthy_of_insert (m := m) rfl k]
      simp only [hback]
      rfl
  | @reset m candidates slot r tracked healthy listed sustained =>
    refine h.congr rfl rfl ?_
    intro k
    rw [isHealthy_of_insert (m := m) rfl k]
    by_cases hk : k = r.key
    · simp [isHealthy, hk, tracked, healthy, resetCounters]
    · rw [if_neg hk]
  | @refresh m candidates slot r tracked listed =>
    refine h.congr rfl rfl ?_
    intro k
    rw [isHealthy_of_insert (m := m) rfl k]
    by_cases hk : k = r.key
    · simp [isHealthy, hk, tracked]
    · rw [if_neg hk]
  | @enlist m candidates r hrunning admitted untracked listed =>
    refine h.tell (n := .added r) hrunning ?_ rfl ?_
    · simp [isHealthy, Notice.key, Notice.isAdded, untracked]
    · intro k
      rw [isHealthy_of_insert (m := m) rfl k]
      rfl
  | announced => exact h.congr rfl rfl fun _ => rfl

theorem lasting : Lasting fun s => Mirror s.members where
  step sound h st := h.step sound st
  pass _ _ h _ _ _ := h.congr rfl rfl fun _ => rfl
  pardon _ h := h.congr rfl rfl fun _ => rfl
  close _ h := ⟨h.faithful, fun hc => by cases hc⟩

theorem initial (policy : Policy) (delay : Duration) (reactions : List Reaction) :
    Mirror (.initial policy delay reactions) :=
  ⟨trivial, fun _ _ => rfl⟩

end Mirror

/-- Once everything is over, the listener hears of no peer any more. -/
theorem Step.view_of_closed {s s' : Situation} (sound : Sound s) (ended : s.members.closed = true)
    (st : Step s s') : s'.members.view = s.members.view := by
  have gone : ∀ {key slot}, s.members.slots.find? key ≠ some slot := fun {key slot} hs => by
    rw [sound.closed ended key] at hs
    cases hs
  cases st with
  | fail tracked healthy => exact absurd tracked gone
  | @settle fs m key slot delay =>
    exact absurd (sound.failing key slot delay List.mem_cons_self).1 gone
  | reconnect t armed due tracked failed => exact absurd tracked gone
  | withdraw tracked healthy unlisted => exact absurd tracked gone
  | restore tracked failed listed => exact absurd tracked gone
  | enlist running admitted untracked listed => exact absurd (running.symm.trans ended) (by decide)
  | _ => rfl

theorem Moves.view_of_closed {m m' : Members} (sound : Sound ⟨[], m⟩) (ended : m.closed = true)
    (mv : Moves m m') : m'.view = m.view := by
  have lasting : Lasting fun s => s.members.closed = true ∧ s.members.view = m.view :=
    { step := fun sound h st =>
        ⟨st.fixed.2.2.2.trans h.1, (st.view_of_closed sound h.1).trans h.2⟩
      pass := fun _ _ h _ _ _ => h
      pardon := fun _ h => h
      close := fun _ h => ⟨rfl, h.2⟩ }
  exact (lasting.moves sound ⟨ended, rfl⟩ mv).2

/-! ## Discovery -/

namespace Engine

/-- **The notices add up to the healthy peers.** In whatever order cycles, failures, reconnects and
requests come, the notices about a peer alternate, beginning with an added one. Until the end, the
peers that were added and not removed are those that are tracked and did not fail. After the end,
nobody is added or removed any more. -/
theorem view_is_healthy_peers {config : Config} {e : Engine} (h : Reachable config e) :
    (∀ key i n, (e.members.heard key)[i]? = some n → n.isAdded = (i % 2 == 0)) ∧
    (e.running = true → ∀ key, e.members.view.contains key = true ↔
      ∃ peer, e.members.find? key = some peer ∧ peer.failed = false) ∧
    (e.running = false → ∀ deeds e', Leads e deeds e' → e'.members.view = e.members.view) := by
  have ordered := h.orderly
  have mirror : Mirror e.members := h.keeps Mirror.lasting fun _ => Mirror.initial _ _ _
  refine ⟨fun key => (alternates_of_faithful mirror.faithful key).1, ?_, ?_⟩
  · intro running key
    rw [mirror.view (ordered.open_of_running running), isHealthy, ordered.sound.find?_eq]
    cases e.members.slots.find? key with
    | none => simp
    | some slot => simp
  · intro stopped deeds e' l
    exact Moves.view_of_closed ordered.sound (ordered.closed_of_stopped stopped)
      (ordered.leads l).1

/-- One of two peers has failed, and the listener has heard of it. -/
theorem view_after_failure : ∃ e,
    session .standard (.fixed ⟨[.plain "b" 0, .plain "a" 0]⟩) []
      [.turn .loop, .turn (.resume 0), .turn (.resume 0), .fail ⟨"a"⟩] = some e ∧
    e.running = true ∧
    e.members.heard ⟨"a"⟩ = [.added (.plain "a" 0), .removed ⟨"a"⟩] ∧
    (∀ key i n, (e.members.heard key)[i]? = some n → n.isAdded = (i % 2 == 0)) ∧
    ∀ key, e.members.view.contains key = true ↔
      ∃ peer, e.members.find? key = some peer ∧ peer.failed = false := by
  obtain ⟨e, he, hp⟩ := (Option.any_eq_true _ _).1 (show
    (session .standard (.fixed ⟨[.plain "b" 0, .plain "a" 0]⟩) []
      [.turn .loop, .turn (.resume 0), .turn (.resume 0), .fail ⟨"a"⟩]).any (fun e => e.running &&
        e.members.heard ⟨"a"⟩ == [.added (.plain "a" 0), .removed ⟨"a"⟩]) = true by decide +kernel)
  obtain ⟨running, heard⟩ := Bool.and_eq_true_iff.1 hp
  have h : Reachable .standard e := reachable_of_session (by simp) he
  obtain ⟨alternate, healthy, -⟩ := view_is_healthy_peers h
  exact ⟨e, he, running, by simpa using heard, alternate, healthy running⟩

end Engine

end Roster
