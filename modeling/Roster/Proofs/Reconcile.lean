import Roster.Proofs.View

/-!
# Proofs.Reconcile — a reconciliation does exactly what the candidates ask for

The listener does not answer here, so nothing comes between one peer and the next.

* `Members.unlisted`, `returning`, `newcomers`: what there is to do. `Members.difference`: the
  notices that this takes.
* `Hears`: the listener has heard some notices and answered none.
* `withdraw_exact`, `keep_exact`, `enrol_exact`: one peer. `sweep_exact`: one after the other; an
  element finds its own peer as it was before the sweep.
* `reconcile_exact`: all three sweeps.
* `Steady`: the peers are those of some candidates already. `Steady.reconcile`: then there is silence.
-/

namespace Roster

open Members

namespace Members

/-- The tracked peers that are not among the candidates. -/
def unlisted (m : Members) (candidates : KeyMap Record) : List PeerKey :=
  m.slots.keys.filter fun key => !candidates.contains key

/-- The candidates that are tracked and failed. -/
def returning (m : Members) (candidates : KeyMap Record) : List (PeerKey × Record) :=
  candidates.entries.filter fun e => (m.find? e.1).any (·.failed)

/-- The candidates that are tracked. -/
def retained (m : Members) (candidates : KeyMap Record) : List (PeerKey × Record) :=
  candidates.entries.filter fun e => m.contains e.1

def newcomers (m : Members) (candidates : KeyMap Record) : List (PeerKey × Record) :=
  candidates.entries.filter fun e => (m.find? e.1).isNone

/-- The notices that lead to the candidates: of the peers that go the healthy ones, then the failed
ones that are back, then the new ones. -/
def difference (m : Members) (candidates : KeyMap Record) : List Notice :=
  ((m.unlisted candidates).filter m.isHealthy).map .removed ++
    (m.returning candidates).map (fun e => .added e.2) ++
    (m.newcomers candidates).map (fun e => .added e.2)

end Members

/-- What there is to do depends on the slots alone. -/
theorem todo_congr {m m' : Members} (slots : m'.slots = m.slots) (candidates : KeyMap Record) :
    m'.unlisted candidates = m.unlisted candidates ∧
      m'.returning candidates = m.returning candidates ∧
      m'.newcomers candidates = m.newcomers candidates ∧
      m'.difference candidates = m.difference candidates := by
  have healthy : m'.isHealthy = m.isHealthy := by
    funext key
    rw [isHealthy, isHealthy, slots]
  have found : ∀ key, m'.find? key = m.find? key := fun key => by
    rw [Members.find?, Members.find?, slot?, slot?, slots]
  simp only [difference, unlisted, returning, newcomers, healthy, found, slots, and_self]

/-- The listener has heard these notices, first one first, and answered none. Nothing has changed
that concerns all peers. -/
structure Hears (notices : List Notice) (m m' : Members) : Prop where
  told : m'.told = (notices.map (.notice m.now)).reverse ++ m.told
  reactions : m'.reactions = []
  now : m'.now = m.now
  closed : m'.closed = m.closed
  excluded : m'.excluded = m.excluded

theorem Hears.refl {m : Members} (plain : m.reactions = []) : Hears [] m m :=
  ⟨rfl, plain, rfl, rfl, rfl⟩

theorem Hears.trans {notices notices' : List Notice} {m m' m'' : Members}
    (h : Hears notices m m') (h' : Hears notices' m' m'') : Hears (notices ++ notices') m m'' := by
  refine ⟨?_, h'.reactions, h'.now.trans h.now, h'.closed.trans h.closed,
    h'.excluded.trans h.excluded⟩
  rw [h'.told, h.told, h.now, List.map_append, List.reverse_append, List.append_assoc]

/-- A listener that will not answer keeps what it is told. -/
theorem tell_plain {m : Members} (plain : m.reactions = []) (notice : Notice) :
    Members.tell notice m = record notice m := by
  rw [Members.tell, plain]
  rfl

/-! ## One peer -/

section One

variable {m : Members} {key : PeerKey} {slot : Slot}

/-- A peer that is no longer listed goes. The listener hears of it if it was in the view. -/
theorem withdraw_exact (plain : m.reactions = []) (tracked : m.slots.find? key = some slot)
    (evicted : slot.evicted = false) :
    (withdraw Members.tell key m).1 = true ∧
      Hears (if slot.peer.failed then [] else [.removed key]) m (withdraw Members.tell key m).2 ∧
      (withdraw Members.tell key m).2.slots = m.slots.erase key := by
  have removed : m.remove key = (some slot.evict.peer, (m.detach key slot).note (.dropped key)) := by
    simp [Members.remove, tracked, evicted]
  have plain' : ((m.detach key slot).note (.dropped key)).reactions = [] := plain
  unfold withdraw
  rw [removed]
  dsimp only
  rw [tell_plain plain']
  cases hf : slot.peer.failed with
  | true =>
    have hf' : slot.evict.peer.failed = true := hf
    rw [hf']
    exact ⟨rfl, ⟨rfl, plain, rfl, rfl, rfl⟩, rfl⟩
  | false =>
    have hf' : slot.evict.peer.failed = false := hf
    rw [hf']
    exact ⟨rfl, ⟨rfl, plain, rfl, rfl, rfl⟩, rfl⟩

/-- A peer that is still listed has its record refreshed and is healthy from now on. The listener
hears of it if it was out of the view; else it counts as connected as before. -/
theorem keep_exact {e : PeerKey × Record} (plain : m.reactions = []) (own : e.2.key = e.1)
    (tracked : m.slots.find? e.1 = some slot) (evicted : slot.evicted = false) :
    (keep Members.tell e m).1 = slot.peer.failed ∧
      Hears (if slot.peer.failed then [.added e.2] else []) m (keep Members.tell e m).2 ∧
      ∃ slot', (keep Members.tell e m).2.slots = m.slots.insert e.1 slot' ∧
        slot'.peer.failed = false ∧ slot'.peer.record = e.2 ∧
        (slot.peer.failed = false → slot'.peer.connectTime = slot.peer.connectTime) := by
  have hslot : m.slot? e.2.key = some slot := slot?_eq_some_iff.2 ⟨own ▸ tracked, evicted⟩
  unfold keep
  cases hf : slot.peer.failed with
  | true =>
    have plain' : (((m.dropTimer slot.timer).setSlot e.2.key
        { slot.cancel with peer := m.restoredPeer slot e.2 }).note
          (.restored e.2.key slot.peer.sustained)).reactions = [] := plain
    rw [present_of_failed hslot hf, tell_plain plain', own]
    refine ⟨rfl, ⟨rfl, plain, rfl, rfl, rfl⟩, _, rfl, rfl, ?_, fun h => by cases h⟩
    dsimp only [restoredPeer, resetCounters]
    split <;> rfl
  | false =>
    rw [present_of_healthy hslot hf, own]
    by_cases lasted : (m.policy.isSustained (m.connectedFor slot.peer) &&
        (0 < slot.peer.failures || slot.peer.delay != m.policy.initialDelay)) = true
    · rw [if_pos lasted]
      exact ⟨rfl, ⟨rfl, plain, rfl, rfl, rfl⟩, _, rfl, hf, rfl, fun _ => rfl⟩
    · rw [if_neg lasted]
      exact ⟨rfl, ⟨rfl, plain, rfl, rfl, rfl⟩, _, rfl, hf, rfl, fun _ => rfl⟩

/-- A new peer is tracked, and the listener hears of it. -/
theorem enrol_exact {e : PeerKey × Record} (plain : m.reactions = []) (own : e.2.key = e.1)
    (running : m.closed = false) (admitted : m.isExcluded e.1 = false)
    (untracked : m.slots.find? e.1 = none) :
    (enrol Members.tell e m).1 = true ∧ Hears [.added e.2] m (enrol Members.tell e m).2 ∧
      (enrol Members.tell e m).2.slots =
        m.slots.insert e.1 (.fresh (.fresh e.2 m.initialDelay m.now)) := by
  have plain' : ((m.setSlot e.2.key (.fresh (.fresh e.2 m.initialDelay m.now))).note
      (.tracked e.2.key)).reactions = [] := plain
  rw [← own] at admitted untracked ⊢
  unfold enrol
  rw [upsert_of_untracked running admitted untracked]
  dsimp only
  rw [← own, announce_fresh, tell_plain plain']
  exact ⟨rfl, ⟨rfl, plain, rfl, rfl, rfl⟩, rfl⟩

/-- Once everything is over, no peer is new any more. -/
theorem enrol_of_closed (e : PeerKey × Record) (ended : m.closed = true) :
    enrol Members.tell e m = (false, m) := by
  unfold enrol
  rw [show m.upsert e.2 = (.closed, m) by simp [upsert, ended]]

end One

/-! ## One after the other -/

section Sweep

variable {α : Type} {f : α → Members → Bool × Members} {m₀ : Members}

/-- Elements that concern different peers each do what they would do alone. -/
theorem sweep_exact (key : α → PeerKey) (hit tells : α → Bool) (notice : α → Notice)
    (after : α → Option Slot → Prop) {l : List α} (distinct : (l.map key).Nodup)
    (one : ∀ a ∈ l, ∀ before m, Hears before m₀ m →
      m.slots.find? (key a) = m₀.slots.find? (key a) →
      (f a m).1 = hit a ∧ Hears (if tells a then [notice a] else []) m (f a m).2 ∧
        (∀ k, k ≠ key a → (f a m).2.slots.find? k = m.slots.find? k) ∧
        after a ((f a m).2.slots.find? (key a)))
    {before : List Notice} {m : Members} (h : Hears before m₀ m)
    (untouched : ∀ a ∈ l, m.slots.find? (key a) = m₀.slots.find? (key a)) :
    (sweep f l m).1 = l.filter hit ∧
      Hears ((l.filter tells).map notice) m (sweep f l m).2 ∧
      (∀ k, k ∉ l.map key → (sweep f l m).2.slots.find? k = m.slots.find? k) ∧
      ∀ a ∈ l, after a ((sweep f l m).2.slots.find? (key a)) := by
  induction l generalizing before m with
  | nil => exact ⟨rfl, .refl h.reactions, fun _ _ => rfl, fun a ha => by cases ha⟩
  | cons a rest ih =>
    obtain ⟨fresh, distinct'⟩ := List.nodup_cons.1 distinct
    have apart : ∀ b ∈ rest, key b ≠ key a := fun b hb he =>
      fresh (List.mem_map.2 ⟨b, hb, he⟩)
    obtain ⟨hhit, heard, others, this⟩ :=
      one a List.mem_cons_self before m h (untouched a List.mem_cons_self)
    obtain ⟨hhits, heard', others', those⟩ := ih distinct'
      (fun b hb => one b (List.mem_cons_of_mem _ hb)) (h.trans heard) fun b hb =>
        (others _ (apart b hb)).trans (untouched b (List.mem_cons_of_mem _ hb))
    have hsweep : sweep f (a :: rest) m =
        (if (f a m).1 then a :: (sweep f rest (f a m).2).1 else (sweep f rest (f a m).2).1,
          (sweep f rest (f a m).2).2) := rfl
    rw [hsweep]
    refine ⟨?_, ?_, ?_, ?_⟩
    · rw [hhit, hhits, List.filter_cons]
    · have both := heard.trans heard'
      rw [List.filter_cons]
      cases ht : tells a with
      | true =>
        rw [ht] at both
        exact both
      | false =>
        rw [ht] at both
        exact both
    · intro k hk
      rw [List.map_cons, List.mem_cons, not_or] at hk
      exact (others' k hk.2).trans (others k hk.1)
    · intro b hb
      rcases List.mem_cons.1 hb with rfl | hb
      · show after b ((sweep f rest (f b m).2).2.slots.find? (key b))
        rw [others' _ fresh]
        exact this
      · exact those b hb

end Sweep

/-! ## A whole reconciliation -/

section Reconcile

variable {m : Members} {candidates : KeyMap Record}

/-- A slot holds the peer of a candidate as a reconciliation leaves it: healthy, with the record of
the candidate, and connected as before if it was healthy before. -/
def Listed (m : Members) (e : PeerKey × Record) (found : Option Slot) : Prop :=
  ∃ slot, found = some slot ∧ slot.peer.failed = false ∧ slot.peer.record = e.2 ∧
    ∀ old, m.slots.find? e.1 = some old → old.peer.failed = false →
      slot.peer.connectTime = old.peer.connectTime

theorem snapshot_keys {fs : List Frame} (sound : Sound ⟨fs, m⟩) :
    m.snapshot.map (·.key) = m.slots.keys := by
  refine snapshot_keys_of_own fun e he => ?_
  obtain ⟨live, own, -⟩ := sound.own e.1 e.2 (KeyMap.find?_eq_some_iff.2 he)
  exact ⟨live, own⟩

/-- The peers that are no longer listed go. -/
theorem sweep_withdraw (candidates : KeyMap Record) (sound : Sound ⟨[], m⟩) {before : List Notice} {m₁ : Members}
    (h : Hears before m m₁) (same : m₁.slots = m.slots) :
    (sweep (withdraw Members.tell) (m.unlisted candidates) m₁).1 = m.unlisted candidates ∧
      Hears (((m.unlisted candidates).filter m.isHealthy).map .removed) m₁
        (sweep (withdraw Members.tell) (m.unlisted candidates) m₁).2 ∧
      ∀ k, (sweep (withdraw Members.tell) (m.unlisted candidates) m₁).2.slots.find? k =
        if k ∈ m.unlisted candidates then none else m.slots.find? k := by
  obtain ⟨hits, heard, others, those⟩ := sweep_exact (f := withdraw Members.tell)
    (fun k => k) (fun _ => true) m.isHealthy .removed (fun _ o => o = none)
    (l := m.unlisted candidates)
    (by rw [List.map_id']; exact m.slots.keys_nodup.filter _)
    (fun k hk before' m' h' found => by
      obtain ⟨slot, hs⟩ := Option.isSome_iff_exists.1 (KeyMap.mem_keys.1 (List.mem_filter.1 hk).1)
      obtain ⟨hit, heard, slots⟩ := withdraw_exact h'.reactions (found.trans hs) (sound.own k slot hs).1
      have healthy : m.isHealthy k = !slot.peer.failed := by simp [isHealthy, hs]
      refine ⟨hit, ?_, ?_, ?_⟩
      · rw [healthy]
        cases hf : slot.peer.failed <;> rw [hf] at heard <;> exact heard
      · intro k' hk'
        rw [slots, KeyMap.find?_erase, if_neg hk']
      · rw [slots, KeyMap.find?_erase, if_pos rfl])
    h (fun k _ => by rw [same])
  rw [List.filter_true] at hits
  refine ⟨hits, heard, ?_⟩
  intro k
  split
  · next hk => exact those k hk
  · next hk =>
    rw [others k (by rwa [List.map_id']), same]

/-- The peers that are still listed are healthy afterwards. -/
theorem sweep_keep (sound : Sound ⟨[], m⟩) {l : List (PeerKey × Record)}
    (own : ∀ e ∈ l, e.2.key = e.1) (tracked : ∀ e ∈ l, m.slots.contains e.1 = true)
    (distinct : (l.map (·.1)).Nodup) {before : List Notice} {m₁ : Members} (h : Hears before m m₁)
    (untouched : ∀ e ∈ l, m₁.slots.find? e.1 = m.slots.find? e.1) :
    (sweep (keep Members.tell) l m₁).1 = l.filter (fun e => (m.find? e.1).any (·.failed)) ∧
      Hears ((l.filter fun e => (m.find? e.1).any (·.failed)).map fun e => .added e.2) m₁
        (sweep (keep Members.tell) l m₁).2 ∧
      (∀ k, k ∉ l.map (·.1) → (sweep (keep Members.tell) l m₁).2.slots.find? k =
        m₁.slots.find? k) ∧
      ∀ e ∈ l, Listed m e ((sweep (keep Members.tell) l m₁).2.slots.find? e.1) := by
  refine sweep_exact (·.1) _ _ (fun e => .added e.2) (Listed m) distinct ?_ h untouched
  intro e he before' m' h' found
  obtain ⟨slot, hs⟩ := Option.isSome_iff_exists.1 (tracked e he)
  obtain ⟨hit, heard, slot', slots, healthy, record, connected⟩ :=
    keep_exact h'.reactions (own e he) (found.trans hs) (sound.own e.1 slot hs).1
  have failed : (m.find? e.1).any (·.failed) = slot.peer.failed := by
    rw [sound.find?_eq]
    simp [hs]
  rw [failed]
  refine ⟨hit, heard, ?_, slot', ?_, healthy, record, ?_⟩
  · intro k hk
    rw [slots, KeyMap.find?_insert, if_neg hk]
  · rw [slots, KeyMap.find?_insert, if_pos rfl]
  · intro old hold
    obtain rfl := Option.some.inj (hs.symm.trans hold)
    exact connected

/-- The new peers are tracked afterwards. -/
theorem sweep_enrol (running : m.closed = false) {l : List (PeerKey × Record)}
    (own : ∀ e ∈ l, e.2.key = e.1 ∧ m.isExcluded e.1 = false)
    (untracked : ∀ e ∈ l, m.slots.find? e.1 = none)
    (distinct : (l.map (·.1)).Nodup) {before : List Notice} {m₁ : Members} (h : Hears before m m₁)
    (untouched : ∀ e ∈ l, m₁.slots.find? e.1 = m.slots.find? e.1) :
    (sweep (enrol Members.tell) l m₁).1 = l ∧
      Hears (l.map fun e => .added e.2) m₁ (sweep (enrol Members.tell) l m₁).2 ∧
      (∀ k, k ∉ l.map (·.1) → (sweep (enrol Members.tell) l m₁).2.slots.find? k =
        m₁.slots.find? k) ∧
      ∀ e ∈ l, Listed m e ((sweep (enrol Members.tell) l m₁).2.slots.find? e.1) := by
  obtain ⟨hits, heard, others, those⟩ := sweep_exact (f := enrol Members.tell) (·.1)
    (fun _ => true) (fun _ => true) (fun e => .added e.2) (Listed m) distinct
    (fun e he before' m' h' found => by
      obtain ⟨hkey, admitted⟩ := own e he
      have admitted' : m'.isExcluded e.1 = false := by
        rw [isExcluded, h'.excluded]
        exact admitted
      obtain ⟨hit, heard, slots⟩ := enrol_exact h'.reactions hkey (h'.closed.trans running)
        admitted' (found.trans (untracked e he))
      refine ⟨hit, heard, ?_, .fresh (.fresh e.2 m'.initialDelay m'.now), ?_, rfl, rfl,
        ?_⟩
      · intro k hk
        rw [slots, KeyMap.find?_insert, if_neg hk]
      · rw [slots, KeyMap.find?_insert, if_pos rfl]
      · intro old hold
        rw [untracked e he] at hold
        cases hold)
    h untouched
  rw [List.filter_true] at hits heard
  exact ⟨hits, heard, others, those⟩

/-! ## What there is to do -/

theorem mem_unlisted {key : PeerKey} :
    key ∈ m.unlisted candidates ↔ m.contains key = true ∧ candidates.contains key = false := by
  rw [unlisted, List.mem_filter, KeyMap.mem_keys, Members.contains]
  simp

theorem mem_retained {e : PeerKey × Record} :
    e ∈ m.retained candidates ↔ e ∈ candidates.entries ∧ m.contains e.1 = true :=
  List.mem_filter

theorem mem_newcomers (sound : Sound ⟨[], m⟩) {e : PeerKey × Record} :
    e ∈ m.newcomers candidates ↔ e ∈ candidates.entries ∧ m.contains e.1 = false := by
  rw [newcomers, List.mem_filter, sound.find?_eq, Members.contains, KeyMap.contains]
  simp

/-- A candidate is no peer that goes. -/
theorem not_unlisted {e : PeerKey × Record} (he : e ∈ candidates.entries) :
    e.1 ∉ m.unlisted candidates := by
  intro hm
  have gone := (mem_unlisted.1 hm).2
  rw [KeyMap.contains_of_mem he] at gone
  cases gone

/-- A peer that comes is no peer that stays. -/
theorem newcomer_not_retained (sound : Sound ⟨[], m⟩) {e e' : PeerKey × Record}
    (he : e ∈ m.newcomers candidates) (he' : e' ∈ m.retained candidates) : e.1 ≠ e'.1 := by
  intro hk
  have new := ((mem_newcomers sound).1 he).2
  rw [hk, (mem_retained.1 he').2] at new
  cases new

theorem not_newcomer (sound : Sound ⟨[], m⟩) {e : PeerKey × Record} (he : e ∈ m.retained candidates) :
    e.1 ∉ (m.newcomers candidates).map (·.1) := by
  intro hm
  obtain ⟨e', he', hk⟩ := List.mem_map.1 hm
  exact newcomer_not_retained sound he' he hk

theorem not_retained (sound : Sound ⟨[], m⟩) {e : PeerKey × Record} (he : e ∈ m.newcomers candidates) :
    e.1 ∉ (m.retained candidates).map (·.1) := by
  intro hm
  obtain ⟨e', he', hk⟩ := List.mem_map.1 hm
  exact newcomer_not_retained sound he he' hk.symm

/-- Of the peers that stay, the failed ones are back. -/
theorem retained_failed (sound : Sound ⟨[], m⟩) :
    (m.retained candidates).filter (fun e => (m.find? e.1).any (·.failed)) =
      m.returning candidates := by
  rw [retained, List.filter_filter]
  refine List.filter_congr ?_
  intro e _
  rw [Members.contains, KeyMap.contains, sound.find?_eq]
  cases m.slots.find? e.1 <;> simp

/-- A reconciliation in terms of what there is to do. -/
theorem reconcile_eq (sound : Sound ⟨[], m⟩) :
    reconcile Members.tell candidates m =
      let withdrawn := sweep (withdraw Members.tell) (m.unlisted candidates)
        (m.note (.resolved candidates))
      let kept := sweep (keep Members.tell) (m.retained candidates) withdrawn.2
      let enrolled := sweep (enrol Members.tell) (m.newcomers candidates) kept.2
      (⟨enrolled.1.map (·.1), withdrawn.1, kept.1.map (·.1)⟩, enrolled.2.note .reconciled) := by
  have tracked : ∀ k, m.slots.keys.contains k = m.contains k := by
    intro k
    rw [Bool.eq_iff_iff, List.contains_iff_mem]
    exact KeyMap.mem_keys
  have hnew : m.newcomers candidates =
      candidates.entries.filter fun e => !m.slots.keys.contains e.1 := by
    refine List.filter_congr ?_
    intro e _
    rw [tracked, Members.contains, KeyMap.contains, sound.find?_eq]
    cases m.slots.find? e.1 <;> rfl
  have hold : m.retained candidates =
      candidates.entries.filter fun e => m.slots.keys.contains e.1 := by
    refine List.filter_congr ?_
    intro e _
    rw [tracked]
  rw [hnew, hold, unlisted, ← snapshot_keys sound]
  rfl

/-- **A reconciliation does exactly what the candidates ask for.** -/
theorem reconcile_exact (sound : Sound ⟨[], m⟩) (plain : m.reactions = [])
    (running : m.closed = false)
    (own : ∀ e ∈ candidates.entries, e.2.key = e.1 ∧ m.isExcluded e.1 = false) :
    (reconcile Members.tell candidates m).1 = ⟨(m.newcomers candidates).map (·.1),
        m.unlisted candidates, (m.returning candidates).map (·.1)⟩ ∧
      Hears (m.difference candidates) m (reconcile Members.tell candidates m).2 ∧
      (∀ key, candidates.find? key = none →
        (reconcile Members.tell candidates m).2.slots.find? key = none) ∧
      ∀ e ∈ candidates.entries,
        Listed m e ((reconcile Members.tell candidates m).2.slots.find? e.1) := by
  have old : ∀ e ∈ m.retained candidates, e ∈ candidates.entries ∧ m.contains e.1 = true :=
    fun e => mem_retained.1
  have new : ∀ e ∈ m.newcomers candidates, e ∈ candidates.entries ∧ m.slots.find? e.1 = none := by
    intro e he
    obtain ⟨he, hc⟩ := (mem_newcomers sound).1 he
    exact ⟨he, by simpa [Members.contains, KeyMap.contains] using hc⟩
  rw [reconcile_eq sound]
  dsimp only
  -- the peers that go
  have start : Hears [] m (m.note (.resolved candidates)) := ⟨rfl, plain, rfl, rfl, rfl⟩
  obtain ⟨gone, heard₁, slots₁⟩ := sweep_withdraw candidates sound start rfl
  generalize sweep (withdraw Members.tell) (m.unlisted candidates)
    (m.note (.resolved candidates)) = withdrawn at gone heard₁ slots₁ ⊢
  have same₁ : ∀ e ∈ candidates.entries, withdrawn.2.slots.find? e.1 = m.slots.find? e.1 := by
    intro e he
    rw [slots₁, if_neg (not_unlisted he)]
  -- the peers that stay
  obtain ⟨back, heard₂, others₂, listed₂⟩ := sweep_keep sound (l := m.retained candidates)
    (fun e he => (own e (old e he).1).1) (fun e he => (old e he).2)
    (candidates.nodup_keys_filter _) (start.trans heard₁) (fun e he => same₁ e (old e he).1)
  generalize sweep (keep Members.tell) (m.retained candidates) withdrawn.2 = kept
    at back heard₂ others₂ listed₂ ⊢
  rw [retained_failed sound] at back heard₂
  -- the peers that come
  obtain ⟨fresh, heard₃, others₃, listed₃⟩ := sweep_enrol running (l := m.newcomers candidates)
    (fun e he => own e (new e he).1) (fun e he => (new e he).2)
    (candidates.nodup_keys_filter _) ((start.trans heard₁).trans heard₂)
    (fun e he => (others₂ _ (not_retained sound he)).trans (same₁ e (new e he).1))
  generalize sweep (enrol Members.tell) (m.newcomers candidates) kept.2 = enrolled
    at fresh heard₃ others₃ listed₃ ⊢
  refine ⟨by rw [fresh, gone, back], ?_, ?_, ?_⟩
  · have heard := ((start.trans heard₁).trans heard₂).trans heard₃
    exact ⟨heard.told, heard.reactions, heard.now, heard.closed, heard.excluded⟩
  · intro key hkey
    have hnot := candidates.not_mem_filter_of_none hkey
    show enrolled.2.slots.find? key = none
    rw [others₃ key (hnot _), others₂ key (hnot _), slots₁]
    split
    · rfl
    · next hlisted =>
      rw [mem_unlisted, Members.contains, KeyMap.contains, KeyMap.contains, hkey] at hlisted
      simpa using hlisted
  · intro e he
    show Listed m e (enrolled.2.slots.find? e.1)
    by_cases tracked : m.contains e.1 = true
    · have stays := mem_retained.2 ⟨he, tracked⟩
      rw [others₃ _ (not_newcomer sound stays)]
      exact listed₂ e stays
    · exact listed₃ e ((mem_newcomers sound).2 ⟨he, Bool.eq_false_iff.2 tracked⟩)

theorem sweep_enrol_of_closed (l : List (PeerKey × Record)) (ended : m.closed = true) :
    sweep (enrol Members.tell) l m = ([], m) := by
  induction l with
  | nil => rfl
  | cons e rest ih =>
    rw [sweep, enrol_of_closed e ended]
    dsimp only
    rw [ih]
    rfl

/-- Once everything is over, a reconciliation changes nothing. -/
theorem reconcile_of_closed (sound : Sound ⟨[], m⟩) (ended : m.closed = true) :
    reconcile Members.tell candidates m =
      (⟨[], [], []⟩, (m.note (.resolved candidates)).note .reconciled) := by
  have untracked : ∀ key, m.contains key = false := by
    intro key
    rw [Members.contains, KeyMap.contains, sound.closed ended key]
    rfl
  have nobody : m.unlisted candidates = [] := by
    refine List.eq_nil_iff_forall_not_mem.2 ?_
    intro key hm
    rw [mem_unlisted, untracked] at hm
    cases hm.1
  have gone : m.retained candidates = [] := by
    refine List.eq_nil_iff_forall_not_mem.2 ?_
    intro e hm
    rw [mem_retained, untracked] at hm
    cases hm.2
  have ended' : (m.note (.resolved candidates)).closed = true := ended
  rw [reconcile_eq sound, nobody, gone]
  dsimp only [sweep]
  rw [sweep_enrol_of_closed _ ended']
  rfl

/-! ## Silence -/

/-- Nobody answers, the tracked peers are those with these keys, and all are healthy; unless
everything is over. -/
structure Steady (keys : List PeerKey) (m : Members) : Prop where
  plain : m.reactions = []
  keys : m.closed = false → m.slots.keys = keys
  healthy : ∀ key slot, m.slots.find? key = some slot → slot.peer.failed = false

theorem Steady.congr {keys : List PeerKey} {m' : Members} (h : Steady keys m)
    (reactions : m'.reactions = m.reactions) (closed : m'.closed = m.closed)
    (slots : m'.slots = m.slots) : Steady keys m' :=
  ⟨reactions.trans h.plain, fun hc => slots ▸ h.keys (closed ▸ hc), slots ▸ h.healthy⟩

/-- Where nobody failed, no timer is armed. -/
theorem Steady.timers {keys : List PeerKey} (h : Steady keys m) (sound : Sound ⟨[], m⟩) :
    m.timers = [] := by
  refine List.eq_nil_iff_forall_not_mem.2 ?_
  intro t ht
  obtain ⟨slot, w⟩ := sound.held ht
  exact absurd (w.failed.symm.trans (h.healthy _ _ w.tracked)) (by decide)

/-- A reconciliation leaves exactly the candidates, and all of them healthy. -/
theorem reconcile_steady (sound : Sound ⟨[], m⟩) (plain : m.reactions = [])
    (running : m.closed = false)
    (own : ∀ e ∈ candidates.entries, e.2.key = e.1 ∧ m.isExcluded e.1 = false) :
    Steady candidates.keys (reconcile Members.tell candidates m).2 := by
  obtain ⟨-, heard, gone, listed⟩ := reconcile_exact sound plain running own
  refine ⟨heard.reactions, fun _ => KeyMap.keys_eq_of_contains ?_, ?_⟩
  · intro key
    cases hc : candidates.find? key with
    | none => rw [KeyMap.contains, KeyMap.contains, gone key hc, hc]; rfl
    | some record =>
      obtain ⟨slot, hs, -⟩ := listed _ (KeyMap.find?_eq_some_iff.1 hc)
      rw [KeyMap.contains, KeyMap.contains, hc]
      exact congrArg Option.isSome hs
  · intro key slot hs
    cases hc : candidates.find? key with
    | none =>
      rw [gone key hc] at hs
      cases hs
    | some record =>
      obtain ⟨slot', hs', healthy, -⟩ := listed _ (KeyMap.find?_eq_some_iff.1 hc)
      obtain rfl := Option.some.inj (hs.symm.trans hs')
      exact healthy

/-- Where the peers are the candidates already, a reconciliation tells nobody and changes nothing
but records and counters. -/
theorem Steady.reconcile {keys : List PeerKey} (h : Steady keys m) (sound : Sound ⟨[], m⟩)
    (own : ∀ e ∈ candidates.entries, e.2.key = e.1 ∧ m.isExcluded e.1 = false)
    (same : candidates.keys = keys) :
    (reconcile Members.tell candidates m).1 = ⟨[], [], []⟩ ∧
      (reconcile Members.tell candidates m).2.told = m.told ∧
      Steady keys (reconcile Members.tell candidates m).2 := by
  cases ended : m.closed with
  | true =>
    rw [reconcile_of_closed sound ended]
    exact ⟨rfl, rfl, h.plain, h.keys, h.healthy⟩
  | false =>
    have hkeys : m.slots.keys = candidates.keys := (h.keys ended).trans same.symm
    have tracked : ∀ key, m.contains key = candidates.contains key := by
      intro key
      rw [Bool.eq_iff_iff, ← KeyMap.mem_keys, ← hkeys, KeyMap.mem_keys]
      rfl
    have nobody : m.unlisted candidates = [] := by
      refine List.eq_nil_iff_forall_not_mem.2 ?_
      intro key hm
      rw [mem_unlisted, tracked] at hm
      cases hm.1.symm.trans hm.2
    have noone : m.returning candidates = [] := by
      refine List.filter_eq_nil_iff.2 ?_
      intro e _
      rw [sound.find?_eq]
      cases hs : m.slots.find? e.1 with
      | none => simp
      | some slot => simp [h.healthy _ slot hs]
    have nought : m.newcomers candidates = [] := by
      refine List.eq_nil_iff_forall_not_mem.2 ?_
      intro e hm
      obtain ⟨he, hc⟩ := (mem_newcomers sound).1 hm
      rw [tracked, KeyMap.contains_of_mem he] at hc
      cases hc
    obtain ⟨changes, heard, -⟩ := reconcile_exact sound h.plain ended own
    refine ⟨?_, ?_, same ▸ reconcile_steady sound h.plain ended own⟩
    · rw [changes, nobody, noone, nought]
      rfl
    · rw [heard.told, difference, nobody, noone, nought]
      rfl

end Reconcile

end Roster
