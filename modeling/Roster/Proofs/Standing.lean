import Roster.Proofs.Alike
import Roster.Proofs.Reconcile

/-!
# Proofs.Standing — what becomes of one peer, whatever becomes of the others

The listener does not answer here.

* `Standing`: all there is to know about one peer.
* `Standing.fails`, `rung`, `withdrawn`, `presented`, `enrolled`: what an operation makes of it. Of
  the members these read the rules and the clock, and nothing else.
* `standing_of_change`: a change of one peer leaves the others alone.
* `fail_standing`, `fire_standing`, `reconcile_standing`: what an operation makes of each peer.
-/

namespace Roster

open Members Relation

/-- All there is to know about one peer. -/
@[ext] structure Standing where
  /-- What is known of it while it is tracked. -/
  peer : Option Tracked
  excluded : Bool
  /-- No peer is accepted any more. -/
  closed : Bool
  /-- When its reconnect timers are due. -/
  deadlines : List Nat
  /-- The notices about it, latest first. -/
  notices : List (Nat × Notice)

namespace Members

def standing (m : Members) (key : PeerKey) : Standing where
  peer := m.find? key
  excluded := m.isExcluded key
  closed := m.closed
  deadlines := (m.timersOf key).map (·.due)
  notices := m.notices.filter (·.2.key == key)

/-- The same members at some time. -/
def asOf (m : Members) (time : Nat) : Members := { m with now := time }

/-- The rules and the clock. -/
def rules (m : Members) : Members := (initial m.policy m.initialDelay []).asOf m.now

end Members

/-! ## What an operation makes of a peer -/

namespace Standing

variable (rules : Members)

/-- The peer is reported failed. -/
def fails (key : PeerKey) (s : Standing) : Standing :=
  match s.peer with
  | none => s
  | some peer =>
    if peer.failed then s
    else
      let noted := rules.noteFailure peer
      let s := { s with notices := (rules.now, .removed key) :: s.notices }
      if rules.policy.isExhausted noted.2.failures then
        { s with peer := none, excluded := true, deadlines := [] }
      else
        { s with
          peer := some { noted.2 with pending := true }
          deadlines := [Clock.after rules.now noted.1] }

/-- The timer of the peer goes off. -/
def rung (s : Standing) : Standing :=
  match s.peer with
  | none => { s with deadlines := [] }
  | some peer =>
    { s with
      peer := some (rules.reconnectedPeer (.fresh peer))
      deadlines := []
      notices := (rules.now, .added peer.record) :: s.notices }

/-- A cycle finds that the peer is not listed any more. -/
def withdrawn (key : PeerKey) (s : Standing) : Standing :=
  match s.peer with
  | none => s
  | some peer =>
    { s with
      peer := none
      deadlines := []
      notices := if peer.failed then s.notices else (rules.now, .removed key) :: s.notices }

/-- A cycle finds that the peer is still listed. -/
def presented (r : Record) (s : Standing) : Standing :=
  match s.peer with
  | none => s
  | some peer =>
    if peer.failed then
      { s with
        peer := some (rules.restoredPeer (.fresh peer) r)
        deadlines := []
        notices := (rules.now, .added r) :: s.notices }
    else if rules.policy.isSustained (rules.connectedFor peer) &&
        (0 < peer.failures || peer.delay != rules.policy.initialDelay) then
      { s with peer := some (rules.resetCounters { peer with record := r }) }
    else { s with peer := some { peer with record := r } }

/-- A cycle tracks a peer, unless it is tracked by now or not accepted. -/
def enrolled (r : Record) (s : Standing) : Standing :=
  if s.closed || s.excluded then s
  else
    match s.peer with
    | none =>
      { s with
        peer := some (.fresh r rules.initialDelay rules.now)
        notices := (rules.now, .added r) :: s.notices }
    | some peer => { s with peer := some { peer with record := r } }

/-- A cycle finds the peer listed with a record, or not at all. -/
def cycled (key : PeerKey) (listed : Option Record) (s : Standing) : Standing :=
  match listed with
  | none => s.withdrawn rules key
  | some r => if s.peer.isSome then s.presented rules r else s.enrolled rules r

end Standing

/-! ## Changes of one peer -/

/-- What does nothing to its peer does nothing to any. -/
theorem unchanged {α : Type} {f : PeerKey → α} {key : PeerKey} {a : α} (h : a = f key)
    (k : PeerKey) : f k = if k = key then a else f k := by
  split
  · next hk => rw [h, hk]
  · rfl

/-- After a change of one peer the others stand as before. -/
theorem standing_of_change {m m' : Members} {key : PeerKey} {s : Standing} (news : List Notice)
    (about : ∀ notice ∈ news, notice.key = key)
    (told : m'.notices = news.map (m.now, ·) ++ m.notices)
    (peer : ∀ k, m'.find? k = if k = key then s.peer else m.find? k)
    (excluded : ∀ k, m'.isExcluded k = if k = key then s.excluded else m.isExcluded k)
    (closed : m'.closed = m.closed ∧ s.closed = m.closed)
    (deadlines : ∀ k, (m'.timersOf k).map (·.due) =
      if k = key then s.deadlines else (m.timersOf k).map (·.due))
    (notices : s.notices = news.map (m.now, ·) ++ (m.standing key).notices) (k : PeerKey) :
    m'.standing k = if k = key then s else m.standing k := by
  by_cases hk : k = key
  · subst hk
    have all : (news.map (m.now, ·)).filter (fun x => x.2.key == k) = news.map (m.now, ·) := by
      simp only [List.filter_eq_self, List.mem_map]
      rintro _ ⟨notice, hn, rfl⟩
      simpa using about notice hn
    rw [if_pos rfl]
    ext1
    · exact (peer k).trans (if_pos rfl)
    · exact (excluded k).trans (if_pos rfl)
    · exact closed.1.trans closed.2.symm
    · exact (deadlines k).trans (if_pos rfl)
    · rw [notices]
      simp only [standing, told, List.filter_append, all]
  · have none : (news.map (m.now, ·)).filter (fun x => x.2.key == k) = [] := by
      simp only [List.filter_eq_nil_iff, List.mem_map]
      rintro _ ⟨notice, hn, rfl⟩
      simpa [about notice hn] using Ne.symm hk
    rw [if_neg hk]
    ext1
    · exact (peer k).trans (if_neg hk)
    · exact (excluded k).trans (if_neg hk)
    · exact closed.1
    · exact (deadlines k).trans (if_neg hk)
    · simp only [standing, told, List.filter_append, none, List.nil_append]

/-- After a change of one peer that leaves the exclusions alone. -/
theorem standing_of_slot {m m' : Members} {key : PeerKey} (peer : Option Tracked)
    (deadlines : List Nat) (news : List Notice) (about : ∀ notice ∈ news, notice.key = key)
    (told : m'.notices = news.map (m.now, ·) ++ m.notices)
    (found : ∀ k, m'.find? k = if k = key then peer else m.find? k)
    (excluded : m'.excluded = m.excluded) (closed : m'.closed = m.closed)
    (due : ∀ k, (m'.timersOf k).map (·.due) =
      if k = key then deadlines else (m.timersOf k).map (·.due)) (k : PeerKey) :
    m'.standing k =
      if k = key then
        { m.standing key with peer, deadlines, notices := news.map (m.now, ·) ++ (m.standing key).notices }
      else m.standing k := by
  refine standing_of_change news about told found ?_ ⟨closed, rfl⟩ due rfl k
  intro k
  rw [isExcluded, excluded]
  exact unchanged (f := m.isExcluded) rfl k

/-- Nothing has changed that concerns peers. -/
theorem standing_congr {m m' : Members} (slots : m'.slots = m.slots)
    (excluded : m'.excluded = m.excluded) (closed : m'.closed = m.closed)
    (timers : m'.timers = m.timers) (told : m'.told = m.told) (k : PeerKey) :
    m'.standing k = m.standing k := by
  simp only [standing, Members.find?, slot?, isExcluded, timersOf, notices, slots, excluded, closed,
    timers, told]

section One

variable {fs : List Frame} {m : Members} {key : PeerKey} {slot : Slot}

/-- A peer that is tracked stands as its slot says. -/
theorem Sound.standing_peer (sound : Sound ⟨fs, m⟩) (hs : m.slots.find? key = some slot) :
    (m.standing key).peer = some slot.peer := by
  have found := sound.find?_eq key
  rw [hs] at found
  exact found

theorem standing_untracked (hs : m.slots.find? key = none) : (m.standing key).peer = none := by
  simp [standing, Members.find?, slot?, hs]

/-- What can be found after the slot of one peer was put in its place. -/
theorem find?_of_insert {m' : Members} (slot : Slot) (slots : m'.slots = m.slots.insert key slot)
    (live : slot.evicted = false) (k : PeerKey) :
    m'.find? k = if k = key then some slot.peer else m.find? k := by
  by_cases hk : k = key
  · simp [Members.find?, slot?, slots, KeyMap.find?_insert, hk, live]
  · simp [Members.find?, slot?, slots, KeyMap.find?_insert, hk]

theorem find?_of_erase {m' : Members} (slots : m'.slots = m.slots.erase key) (k : PeerKey) :
    m'.find? k = if k = key then none else m.find? k := by
  by_cases hk : k = key
  · simp [Members.find?, slot?, slots, KeyMap.find?_erase, hk]
  · simp [Members.find?, slot?, slots, KeyMap.find?_erase, hk]

/-- Only what is known of one peer has changed. -/
theorem standing_of_peer {m' : Members} (slot : Slot) (slots : m'.slots = m.slots.insert key slot)
    (live : slot.evicted = false) (excluded : m'.excluded = m.excluded) (closed : m'.closed = m.closed)
    (timers : m'.timers = m.timers) (told : m'.told = m.told) (k : PeerKey) :
    m'.standing k = if k = key then { m.standing key with peer := some slot.peer } else m.standing k := by
  refine standing_of_slot (some slot.peer) (m.standing key).deadlines [] (by simp) ?_
    (find?_of_insert slot slots live) excluded closed ?_ k
  · exact congrArg (List.filterMap Told.notice?) told
  · intro k
    rw [timersOf, timers]
    exact unchanged (f := fun k => (m.timersOf k).map (·.due)) rfl k

/-- The deadlines after the timer of one peer was dropped. -/
theorem Sound.deadlines_of_drop {m' : Members} (sound : Sound ⟨fs, m⟩)
    (hs : m.slots.find? key = some slot) (timers : m'.timers = (m.dropTimer slot.timer).timers)
    (k : PeerKey) :
    (m'.timersOf k).map (·.due) = if k = key then [] else (m.timersOf k).map (·.due) := by
  have dropped := sound.timersOf_dropTimer hs k
  rw [timersOf, timers]
  rw [timersOf] at dropped
  rw [dropped]
  split
  · rfl
  · rfl

/-! ## Failures and timers -/

/-- A healthy peer fails. -/
theorem fail_of_healthy (plain : m.reactions = []) (hs : m.slot? key = some slot)
    (healthy : slot.peer.failed = false) : m.fail Members.tell key =
      Members.afterFailure ((record (.removed key) (m.setSlot key (m.failedSlot slot))).count
        Tally.removed) key (m.failedSlot slot).peer (m.noteFailure slot.peer).1 := by
  have plain' : (m.setSlot key (m.failedSlot slot)).reactions = [] := plain
  simp only [Members.fail, hs, healthy, Bool.false_eq_true, if_false]
  rw [← tell_plain plain']
  rfl

/-- The exclusions after the listener has heard of a failure. -/
theorem Sound.settle_isExcluded {delay : Duration}
    (sound : Sound ⟨.failing key slot delay :: fs, m⟩) (k : PeerKey) :
    ((m.count Tally.removed).afterFailure key slot.peer delay).2.isExcluded k =
      if k = key ∧ m.policy.isExhausted slot.peer.failures = true then true
      else m.isExcluded k := by
  have hs : (m.count Tally.removed).slots.find? key = some slot :=
    (sound.failing key slot delay List.mem_cons_self).1
  cases hx : m.policy.isExhausted slot.peer.failures with
  | true =>
    rw [afterFailure_of_exhausted delay hs hx]
    show (m.excluded.insert key ()).contains k = _
    rw [KeyMap.contains_insert]
    by_cases hk : k = key <;> simp [hk, isExcluded]
  | false =>
    rw [afterFailure_of_spared delay hs hx, if_neg (by simp)]
    rfl

/-- What becomes of a peer once the listener has heard of its failure. -/
theorem Sound.settle_standing {delay : Duration}
    (sound : Sound ⟨.failing key slot delay :: fs, m⟩) (k : PeerKey) :
    ((m.count Tally.removed).afterFailure key slot.peer delay).2.standing k =
      if k = key then
        if m.policy.isExhausted slot.peer.failures then
          { m.standing key with peer := none, excluded := true, deadlines := [] }
        else
          { m.standing key with
            peer := some { slot.peer with pending := true }, deadlines := [Clock.after m.now delay] }
      else m.standing k := by
  have settled := sound.step .settle
  have found := sound.settle_find?
  have timers := sound.settle_timersOf
  have excluded := sound.settle_isExcluded
  have idle : m.timersOf key = [] := (sound.idle_of_reporting ⟨_, _, List.mem_cons_self⟩).alone
  obtain ⟨-, -, -, closed, told, -⟩ := afterFailure_fixed (m.count Tally.removed) key slot.peer delay
  generalize Members.afterFailure _ key slot.peer delay = done
    at settled found timers excluded closed told ⊢
  have heard : done.2.notices = m.notices := congrArg (List.filterMap Told.notice?) told
  cases hx : m.policy.isExhausted slot.peer.failures with
  | true =>
    rw [if_pos rfl]
    refine standing_of_change [] (by simp) heard ?_ ?_ ⟨closed, ?_⟩ ?_ ?_ k
    · intro k
      rw [settled.find?_eq, sound.find?_eq, found]
      split <;> simp
    · intro k
      rw [excluded]
      by_cases hk : k = key <;> simp [hk, hx]
    · rfl
    · intro k
      rw [timers, if_neg (by simp [hx])]
      refine unchanged (f := fun k => (m.timersOf k).map (·.due)) ?_ k
      rw [idle]
      rfl
    · rfl
  | false =>
    rw [if_neg Bool.false_ne_true]
    refine standing_of_change [] (by simp) heard ?_ ?_ ⟨closed, ?_⟩ ?_ ?_ k
    · intro k
      rw [settled.find?_eq, sound.find?_eq, found]
      split <;> simp [hx]
    · intro k
      rw [excluded, if_neg (by simp [hx])]
      exact unchanged (f := m.isExcluded) rfl k
    · rfl
    · intro k
      rw [timers]
      by_cases hk : k = key <;> simp [hk, hx]
    · rfl

/-- A failure report of a healthy peer concerns no other. -/
theorem fail_healthy_standing (sound : Sound ⟨fs, m⟩) (plain : m.reactions = [])
    (hslot : m.slot? key = some slot) (healthy : slot.peer.failed = false) (k : PeerKey) :
    (m.fail Members.tell key).2.standing k =
      if k = key then (m.standing key).fails m.rules key else m.standing k := by
  obtain ⟨hs, live⟩ := slot?_eq_some_iff.1 hslot
  have begun := sound.step (.fail hs healthy)
  have reported : ∀ k, (record (.removed key) (m.setSlot key (m.failedSlot slot))).standing k =
      if k = key then
        { m.standing key with
          peer := some (m.failedSlot slot).peer
          notices := (m.now, .removed key) :: (m.standing key).notices }
      else m.standing k := by
    intro k
    refine standing_of_slot (some (m.failedSlot slot).peer) (m.standing key).deadlines [.removed key]
      ?_ ?_ ?_ ?_ ?_ ?_ k
    · simp [Notice.key]
    · rfl
    · exact find?_of_insert (m.failedSlot slot) rfl live
    · rfl
    · rfl
    · exact unchanged (f := fun k => (m.timersOf k).map (·.due)) rfl
  rw [fail_of_healthy plain hslot healthy, begun.settle_standing, reported, reported, if_pos rfl]
  split
  · simp only [Standing.fails, sound.standing_peer hs, healthy, Bool.false_eq_true, if_false]
    rfl
  · rfl

/-- A failure report concerns its own peer only. -/
theorem fail_standing (sound : Sound ⟨fs, m⟩) (plain : m.reactions = []) (key k : PeerKey) :
    (m.fail Members.tell key).2.standing k =
      if k = key then (m.standing key).fails m.rules key else m.standing k := by
  cases hslot : m.slot? key with
  | none =>
    have untracked : (m.standing key).peer = none := by simp [standing, Members.find?, hslot]
    simp only [Members.fail, hslot]
    exact unchanged (f := m.standing) (by simp [Standing.fails, untracked]) k
  | some slot =>
    cases healthy : slot.peer.failed with
    | true =>
      have peer := sound.standing_peer (slot?_eq_some_iff.1 hslot).1
      simp only [Members.fail, hslot, healthy, if_true]
      exact unchanged (f := m.standing) (by simp [Standing.fails, peer, healthy]) k
    | false => exact fail_healthy_standing sound plain hslot healthy k

/-- A timer that goes off concerns its own peer only. -/
theorem fire_standing (sound : Sound ⟨[], m⟩) (plain : m.reactions = []) {timer : Nat} {t : Timer}
    (ht : m.timers.find? (·.id == timer) = some t) (k : PeerKey) :
    (m.fire Members.tell timer).2.standing k =
      if k = t.key then (m.standing t.key).rung m.rules else m.standing k := by
  have hmem : t ∈ m.timers := List.mem_of_find?_eq_some ht
  obtain rfl : t.id = timer := by simpa using List.find?_some ht
  obtain ⟨slot, w⟩ := sound.held hmem
  have live : slot.evicted = false := (sound.own _ _ w.tracked).1
  have hslot : (m.dropTimer (some t.id)).slot? t.key = some slot :=
    slot?_eq_some_iff.2 ⟨w.tracked, live⟩
  have own : slot.peer.record.key = t.key := (sound.own _ _ w.tracked).2.2.1
  simp only [Standing.rung, sound.standing_peer w.tracked]
  simp only [fire, ht, Members.reconnect, hslot, Option.bind_some, w.claim? live, w.failed,
    Bool.not_true, Bool.false_eq_true, if_false]
  rw [tell_plain (by exact plain)]
  refine standing_of_slot (some (m.reconnectedPeer slot)) [] [.added slot.peer.record] ?_ ?_ ?_ ?_
    ?_ ?_ k
  · simpa [Notice.key] using own
  · rfl
  · exact find?_of_insert { slot with timer := none, peer := m.reconnectedPeer slot } rfl live
  · rfl
  · rfl
  · exact sound.deadlines_of_drop w.tracked (by rw [w.timer]; rfl)

/-! ## Pardons and the end -/

theorem pardon_standing (m : Members) (key k : PeerKey) :
    (m.pardon key).2.standing k =
      if k = key then { m.standing key with excluded := false } else m.standing k := by
  have erased : ∀ k, (m.pardon key).2.isExcluded k = if k = key then false else m.isExcluded k :=
    fun k => by
      show (m.excluded.erase key).contains k = _
      rw [KeyMap.contains_erase]
      by_cases hk : k = key <;> simp [hk, isExcluded]
  refine standing_of_change [] (by simp) ?_ ?_ erased ⟨?_, ?_⟩ ?_ ?_ k
  · rfl
  · exact unchanged (f := m.find?) rfl
  · rfl
  · rfl
  · exact unchanged (f := fun k => (m.timersOf k).map (·.due)) rfl
  · rfl

theorem close_standing (sound : Sound ⟨[], m⟩) (k : PeerKey) :
    m.close.standing k = { m.standing k with peer := none, closed := true, deadlines := [] } := by
  have none : m.close.timers = [] := (sound.close.gone rfl).timers
  ext1
  · rfl
  · rfl
  · rfl
  · simp [standing, timersOf, none]
  · rfl

/-! ## Cycles -/

/-- A withdrawal concerns its own peer only. -/
theorem withdraw_standing (sound : Sound ⟨fs, m⟩) (plain : m.reactions = []) (key k : PeerKey) :
    (withdraw Members.tell key m).2.standing k =
      if k = key then (m.standing key).withdrawn m.rules key else m.standing k := by
  cases hs : m.slots.find? key with
  | none =>
    have untracked : (m.standing key).withdrawn m.rules key = m.standing key := by
      simp [Standing.withdrawn, standing_untracked hs]
    simp only [withdraw, Members.remove, hs]
    exact unchanged (f := m.standing) untracked k
  | some slot =>
    have removed : m.remove key = (some slot.evict.peer, (m.detach key slot).note (.dropped key)) := by
      simp [Members.remove, hs, (sound.own key slot hs).1]
    have plain' : ((m.detach key slot).note (.dropped key)).reactions = [] := plain
    simp only [withdraw, removed, Standing.withdrawn, sound.standing_peer hs]
    rw [tell_plain plain', show slot.evict.peer.failed = slot.peer.failed from rfl]
    cases slot.peer.failed with
    | true =>
      refine standing_of_slot none [] [] ?_ ?_ ?_ ?_ ?_ ?_ k
      · simp
      · rfl
      · exact find?_of_erase rfl
      · rfl
      · rfl
      · exact sound.deadlines_of_drop hs rfl
    | false =>
      refine standing_of_slot none [] [.removed key] ?_ ?_ ?_ ?_ ?_ ?_ k
      · simp [Notice.key]
      · rfl
      · exact find?_of_erase rfl
      · rfl
      · rfl
      · exact sound.deadlines_of_drop hs rfl

/-- A peer that is listed again concerns no other. -/
theorem present_standing (sound : Sound ⟨fs, m⟩) (plain : m.reactions = []) (r : Record)
    (k : PeerKey) :
    (m.present Members.tell r).2.standing k =
      if k = r.key then (m.standing r.key).presented m.rules r else m.standing k := by
  cases hslot : m.slot? r.key with
  | none =>
    have untracked : (m.standing r.key).peer = none := by simp [standing, Members.find?, hslot]
    simp only [Members.present, hslot]
    exact unchanged (f := m.standing) (by simp [Standing.presented, untracked]) k
  | some slot =>
    obtain ⟨hs, live⟩ := slot?_eq_some_iff.1 hslot
    have peer := sound.standing_peer hs
    cases failed : slot.peer.failed with
    | true =>
      have presented : (m.standing r.key).presented m.rules r =
          { m.standing r.key with
            peer := some (m.restoredPeer slot r), deadlines := []
            notices := (m.now, .added r) :: (m.standing r.key).notices } := by
        rw [Standing.presented, peer]
        exact if_pos failed
      have plain' : (((m.dropTimer slot.timer).setSlot r.key
        { slot.cancel with peer := m.restoredPeer slot r }).note
          (.restored r.key slot.peer.sustained)).reactions = [] := plain
      rw [present_of_failed hslot failed, tell_plain plain', presented]
      refine standing_of_slot (some (m.restoredPeer slot r)) [] [.added r] ?_ ?_ ?_ ?_ ?_ ?_ k
      · simp [Notice.key]
      · rfl
      · exact find?_of_insert { slot.cancel with peer := m.restoredPeer slot r } rfl live
      · rfl
      · rfl
      · exact sound.deadlines_of_drop hs rfl
    | false =>
      rw [present_of_healthy hslot failed]
      by_cases lasted : (m.policy.isSustained (m.connectedFor slot.peer) &&
          (0 < slot.peer.failures || slot.peer.delay != m.policy.initialDelay)) = true
      · have presented : (m.standing r.key).presented m.rules r = { m.standing r.key with
            peer := some (m.resetCounters { slot.peer with record := r }) } := by
          rw [Standing.presented, peer]
          exact (if_neg (Bool.eq_false_iff.1 failed)).trans (if_pos lasted)
        rw [if_pos lasted, presented]
        refine standing_of_peer { slot with peer := m.resetCounters { slot.peer with record := r } } ?_
          live ?_ ?_ ?_ ?_ k
        all_goals rfl
      · have presented : (m.standing r.key).presented m.rules r = { m.standing r.key with
            peer := some { slot.peer with record := r } } := by
          rw [Standing.presented, peer]
          exact (if_neg (Bool.eq_false_iff.1 failed)).trans (if_neg lasted)
        rw [if_neg lasted, presented]
        refine standing_of_peer { slot with peer := { slot.peer with record := r } } ?_ live ?_ ?_ ?_
          ?_ k
        all_goals rfl

theorem keep_standing (sound : Sound ⟨fs, m⟩) (plain : m.reactions = []) {e : PeerKey × Record}
    (own : e.2.key = e.1) (k : PeerKey) :
    (keep Members.tell e m).2.standing k =
      if k = e.1 then (m.standing e.1).presented m.rules e.2 else m.standing k := by
  rw [← own, ← present_standing sound plain]
  unfold keep
  split
  · next reset m' he => rw [he]; rfl
  · next outcome m' _ he => rw [he]

/-- An admission concerns its own peer only. -/
theorem enrol_standing (sound : Sound ⟨fs, m⟩) (plain : m.reactions = []) {e : PeerKey × Record}
    (own : e.2.key = e.1) (k : PeerKey) :
    (enrol Members.tell e m).2.standing k =
      if k = e.1 then (m.standing e.1).enrolled m.rules e.2 else m.standing k := by
  rw [← own]
  cases running : m.closed with
  | true =>
    have refused : (m.standing e.2.key).enrolled m.rules e.2 = m.standing e.2.key := by
      simp [Standing.enrolled, standing, running]
    rw [enrol_of_closed e running, refused]
    exact unchanged (f := m.standing) rfl k
  | false =>
    cases admitted : m.isExcluded e.2.key with
    | true =>
      have refused : (m.standing e.2.key).enrolled m.rules e.2 = m.standing e.2.key := by
        simp [Standing.enrolled, standing, admitted]
      rw [enrol, show m.upsert e.2 = (.excluded, m) by simp [upsert, running, admitted], refused]
      exact unchanged (f := m.standing) rfl k
    | false =>
      have accepted : ((m.standing e.2.key).closed || (m.standing e.2.key).excluded) = false := by
        simp [standing, running, admitted]
      cases hs : m.slots.find? e.2.key with
      | none =>
        have plain' : ((m.setSlot e.2.key (.fresh (.fresh e.2 m.initialDelay m.now))).note
            (.tracked e.2.key)).reactions = [] := plain
        rw [enrol, upsert_of_untracked running admitted hs]
        dsimp only
        rw [← own, announce_fresh, tell_plain plain']
        simp only [Standing.enrolled, accepted, standing_untracked hs, Bool.false_eq_true, if_false]
        refine standing_of_slot (some (.fresh e.2 m.initialDelay m.now)) (m.standing e.2.key).deadlines
          [.added e.2] ?_ ?_ ?_ ?_ ?_ ?_ k
        · simp [Notice.key]
        · rfl
        · exact find?_of_insert (.fresh (.fresh e.2 m.initialDelay m.now)) rfl rfl
        · rfl
        · rfl
        · exact unchanged (f := fun k => (m.timersOf k).map (·.due)) rfl
      | some slot =>
        have live := (sound.own e.2.key slot hs).1
        rw [enrol, upsert_of_tracked running admitted hs live]
        simp only [Standing.enrolled, accepted, sound.standing_peer hs, Bool.false_eq_true, if_false]
        refine standing_of_peer { slot with peer := { slot.peer with record := e.2 } } ?_ live ?_ ?_ ?_
          ?_ k
        all_goals rfl

end One

section Cycle

variable {candidates : KeyMap Record} {rules m m' : Members}

/-- In the middle of a cycle, while nobody answers, under these rules. -/
structure Within (candidates : KeyMap Record) (rules m : Members) : Prop where
  sound : Sound ⟨[.cycling candidates], m⟩
  plain : m.reactions = []
  same : m.rules = rules

theorem Within.steps (h : Within candidates rules m)
    (st : Steps ⟨[.cycling candidates], m⟩ ⟨[.cycling candidates], m'⟩) :
    Within candidates rules m' := by
  obtain ⟨policy, delay, now, -⟩ := st.fixed
  refine ⟨h.sound.steps st, st.plain h.plain, ?_⟩
  rw [← h.same]
  simp only [Members.rules, show m'.policy = m.policy from policy,
    show m'.initialDelay = m.initialDelay from delay, show m'.now = m.now from now]

/-- Elements that concern different peers each do what they would do alone. -/
theorem sweep_standing {α : Type} {f : α → Members → Bool × Members} (key : α → PeerKey)
    (effect : α → Standing → Standing) {l : List α} (distinct : (l.map key).Nodup)
    (one : ∀ a ∈ l, ∀ m, Within candidates rules m → Within candidates rules (f a m).2 ∧
      ∀ k, (f a m).2.standing k =
        if k = key a then effect a (m.standing (key a)) else m.standing k)
    (h : Within candidates rules m) :
    Within candidates rules (sweep f l m).2 ∧
      (∀ k, k ∉ l.map key → (sweep f l m).2.standing k = m.standing k) ∧
      ∀ a ∈ l, (sweep f l m).2.standing (key a) = effect a (m.standing (key a)) := by
  induction l generalizing m with
  | nil => exact ⟨h, fun _ _ => rfl, fun a ha => by cases ha⟩
  | cons a rest ih =>
    obtain ⟨fresh, distinct'⟩ := List.nodup_cons.1 distinct
    obtain ⟨within, this⟩ := one a List.mem_cons_self m h
    obtain ⟨within', others, those⟩ := ih distinct' (fun b hb => one b (List.mem_cons_of_mem _ hb)) within
    refine ⟨within', ?_, ?_⟩
    · intro k hk
      rw [List.map_cons, List.mem_cons, not_or] at hk
      exact (others k hk.2).trans ((this k).trans (if_neg hk.1))
    · intro b hb
      rcases List.mem_cons.1 hb with rfl | hb
      · exact (others _ fresh).trans ((this _).trans (if_pos rfl))
      · have apart : key b ≠ key a := fun he => fresh (he ▸ List.mem_map_of_mem hb)
        rw [show (sweep f (a :: rest) m).2 = (sweep f rest (f a m).2).2 from rfl, those b hb, this,
          if_neg apart]

theorem withdraw_within (h : Within candidates rules m) {key : PeerKey}
    (unlisted : candidates.find? key = none) :
    Within candidates rules (withdraw Members.tell key m).2 ∧
      ∀ k, (withdraw Members.tell key m).2.standing k =
        if k = key then (m.standing key).withdrawn rules key else m.standing k :=
  ⟨h.steps (withdraw_steps tell_tells h.sound (polite_of_plain h.plain) unlisted),
    fun k => h.same ▸ withdraw_standing h.sound h.plain key k⟩

theorem keep_within (h : Within candidates rules m) {e : PeerKey × Record} (own : e.2.key = e.1)
    (listed : e ∈ candidates.entries) :
    Within candidates rules (keep Members.tell e m).2 ∧
      ∀ k, (keep Members.tell e m).2.standing k =
        if k = e.1 then (m.standing e.1).presented rules e.2 else m.standing k :=
  ⟨h.steps (keep_steps tell_tells (polite_of_plain h.plain) (own ▸ KeyMap.find?_eq_some_iff.2 listed)),
    fun k => h.same ▸ keep_standing h.sound h.plain own k⟩

theorem enrol_within (h : Within candidates rules m) {e : PeerKey × Record} (own : e.2.key = e.1)
    (listed : e ∈ candidates.entries) :
    Within candidates rules (enrol Members.tell e m).2 ∧
      ∀ k, (enrol Members.tell e m).2.standing k =
        if k = e.1 then (m.standing e.1).enrolled rules e.2 else m.standing k :=
  ⟨h.steps (enrol_steps tell_tells (polite_of_plain h.plain) own (own ▸ KeyMap.find?_eq_some_iff.2 listed)),
    fun k => h.same ▸ enrol_standing h.sound h.plain own k⟩

theorem standing_tracked (sound : Sound ⟨[], m⟩) (k : PeerKey) :
    (m.standing k).peer.isSome = m.contains k := by
  show (m.find? k).isSome = _
  rw [sound.find?_eq, Members.contains, KeyMap.contains, Option.isSome_map]

/-- **What a cycle makes of a peer** depends on how that peer stands and on whether it is listed. -/
theorem reconcile_standing (sound : Sound ⟨[], m⟩) (plain : m.reactions = [])
    (own : ∀ e ∈ candidates.entries, e.2.key = e.1) (k : PeerKey) :
    Sound ⟨[], (m.reconcile Members.tell candidates).2⟩ ∧
    (m.reconcile Members.tell candidates).2.reactions = [] ∧
    (m.reconcile Members.tell candidates).2.rules = m.rules ∧
    (m.reconcile Members.tell candidates).2.standing k =
      (m.standing k).cycled m.rules k (candidates.find? k) := by
  have start : Within candidates m.rules (m.note (.resolved candidates)) :=
    ⟨sound.congr rfl (fun _ => id) rfl rfl rfl (by simp) (by simp), plain, rfl⟩
  rw [reconcile_eq sound]
  dsimp only
  obtain ⟨within₁, others₁, those₁⟩ := sweep_standing (fun k => k) (fun k s => s.withdrawn m.rules k)
    (l := m.unlisted candidates) (by rw [List.map_id']; exact m.slots.keys_nodup.filter _)
    (fun k hk m' h => withdraw_within h
      (by simpa [KeyMap.contains] using (mem_unlisted.1 hk).2)) start
  generalize sweep (withdraw Members.tell) (m.unlisted candidates)
    (m.note (.resolved candidates)) = withdrawn at within₁ others₁ those₁ ⊢
  obtain ⟨within₂, others₂, those₂⟩ := sweep_standing (·.1) (fun e s => s.presented m.rules e.2)
    (l := m.retained candidates) (candidates.nodup_keys_filter _)
    (fun e he m' h => keep_within h (own e (mem_retained.1 he).1) (mem_retained.1 he).1) within₁
  generalize sweep (keep Members.tell) (m.retained candidates) withdrawn.2 = kept
    at within₂ others₂ those₂ ⊢
  obtain ⟨within₃, others₃, those₃⟩ := sweep_standing (·.1) (fun e s => s.enrolled m.rules e.2)
    (l := m.newcomers candidates) (candidates.nodup_keys_filter _)
    (fun e he m' h => enrol_within h (own e ((mem_newcomers sound).1 he).1)
      ((mem_newcomers sound).1 he).1) within₂
  generalize sweep (enrol Members.tell) (m.newcomers candidates) kept.2 = enrolled
    at within₃ others₃ those₃ ⊢
  refine ⟨within₃.sound.congr rfl (fun _ => id) rfl rfl rfl (by simp) (by simp), within₃.plain,
    within₃.same, ?_⟩
  have before : (m.note (.resolved candidates)).standing k = m.standing k :=
    standing_congr rfl rfl rfl rfl rfl k
  have tracked := standing_tracked sound k
  show enrolled.2.standing k = _
  cases listed : candidates.find? k with
  | none =>
    have absent := candidates.not_mem_filter_of_none listed
    rw [others₃ k (absent _), others₂ k (absent _)]
    cases hc : m.contains k with
    | true =>
      rw [those₁ k (mem_unlisted.2 ⟨hc, by simp [KeyMap.contains, listed]⟩), before]
      rfl
    | false =>
      have none : (m.standing k).peer = none := by simpa [hc] using tracked
      have stays : k ∉ (m.unlisted candidates).map fun k => k := by
        rw [List.map_id', mem_unlisted, hc]
        simp
      rw [others₁ k stays, before]
      simp [Standing.cycled, Standing.withdrawn, none]
  | some r =>
    have he : (k, r) ∈ candidates.entries := KeyMap.find?_eq_some_iff.1 listed
    have stays : k ∉ (m.unlisted candidates).map fun k => k := by
      rw [List.map_id']
      exact not_unlisted he
    rw [Standing.cycled, tracked]
    cases hc : m.contains k with
    | true =>
      have old := mem_retained.2 ⟨he, hc⟩
      rw [others₃ k (not_newcomer sound old), those₂ _ old, others₁ k stays, before]
      rfl
    | false =>
      have new := (mem_newcomers sound).2 ⟨he, hc⟩
      rw [those₃ _ new, others₂ k (not_retained sound new), others₁ k stays, before]
      rfl

end Cycle

end Roster
