import Roster.Proofs.Reconcile

/-!
# Proofs.Newcomers — a candidate that is not tracked is announced, whatever the listener answers

* `Members.Vacant`: there is room for a peer. One lemma for each operation that leaves it so.
* `Spares`: a listener that takes no room away. `tell_spares`: the listener with its reactions is one,
  however deep its reports go.
* `sweep_append`: a sweep can be cut at any element.
* `reconcile_enrols`: in a reconciliation the turn of each newcomer comes, and there is room for it.
-/

namespace Roster

open Members Relation

/-! ## Room for a peer -/

/-- There is room for the peer: it is not tracked, and nothing speaks against it. The listener does no
more than report failures. -/
structure Members.Vacant (m : Members) (key : PeerKey) : Prop where
  running : m.closed = false
  admitted : m.isExcluded key = false
  untracked : m.slots.find? key = none
  polite : m.Polite

/-- A notice takes no room away from the peer. -/
def Spares (tell : Tell) (key : PeerKey) : Prop :=
  ∀ notice m, m.Vacant key → (tell notice m).Vacant key

namespace Members.Vacant

variable {m m' : Members} {key k : PeerKey}

theorem congr (h : m.Vacant key) (closed : m'.closed = m.closed)
    (excluded : m'.isExcluded key = m.isExcluded key)
    (slots : m'.slots.find? key = m.slots.find? key) (reactions : m'.reactions = m.reactions) :
    m'.Vacant key :=
  ⟨closed.trans h.running, excluded.trans h.admitted, slots.trans h.untracked,
    fun r hr => h.polite r (reactions ▸ hr)⟩

theorem count (h : m.Vacant key) (f : Tally → Tally) : (m.count f).Vacant key :=
  h.congr rfl rfl rfl rfl

theorem write (h : m.Vacant key) (remark : Remark) : (m.write remark).Vacant key :=
  h.congr rfl rfl rfl rfl

theorem note (h : m.Vacant key) (what : Happening) : (m.note what).Vacant key :=
  h.congr rfl rfl rfl rfl

theorem dropTimer (h : m.Vacant key) (timer : Option Nat) : (m.dropTimer timer).Vacant key :=
  h.congr rfl rfl rfl rfl

/-- Whoever is tracked is another peer. -/
theorem ne_of_tracked (h : m.Vacant key) {slot : Slot} (hs : m.slots.find? k = some slot) :
    key ≠ k := by
  rintro rfl
  rw [h.untracked] at hs
  cases hs

theorem setSlot (h : m.Vacant key) (hk : key ≠ k) (slot : Slot) : (m.setSlot k slot).Vacant key :=
  h.congr rfl rfl ((KeyMap.find?_insert _ _ _ _).trans (if_neg hk)) rfl

theorem erase (h : m.Vacant key) (k : PeerKey) :
    Members.Vacant { m with slots := m.slots.erase k } key := by
  refine ⟨h.running, h.admitted, ?_, h.polite⟩
  show (m.slots.erase k).find? key = none
  rw [KeyMap.find?_erase, h.untracked, ite_self]

theorem exclude (h : m.Vacant key) (hk : key ≠ k) : (m.exclude k).Vacant key := by
  have other : (m.excluded.insert k ()).contains key = m.isExcluded key := by
    rw [KeyMap.contains, KeyMap.find?_insert, if_neg hk]
    rfl
  unfold Members.exclude
  split
  · exact h.congr rfl other rfl rfl
  · exact h.congr rfl other ((KeyMap.find?_insert _ _ _ _).trans (if_neg hk)) rfl

theorem discard (h : m.Vacant key) (k : PeerKey) : (m.discard k).Vacant key := by
  unfold Members.discard
  split
  · split
    · exact h.erase k
    · exact h
  · exact h

theorem arm (h : m.Vacant key) (hk : key ≠ k) (slot : Slot) (delay : Duration) :
    (m.arm k slot delay).Vacant key :=
  h.congr rfl rfl ((KeyMap.find?_insert _ _ _ _).trans (if_neg hk)) rfl

theorem afterFailure (h : m.Vacant key) (hk : key ≠ k) (peer : Tracked) (delay : Duration) :
    (m.afterFailure k peer delay).2.Vacant key := by
  unfold Members.afterFailure
  split
  · exact ((((h.write _).exclude hk).count _).discard k).note _
  · dsimp only
    split
    · next slot _ => exact (h.arm hk slot delay).note _
    · exact h.note _

theorem upsert (h : m.Vacant key) (record : Record) (hk : key ≠ record.key) :
    (m.upsert record).2.Vacant key := by
  unfold Members.upsert
  dsimp only
  split
  · exact h
  · split
    · exact h
    · split
      · exact (h.setSlot hk _).note _
      · split
        · exact h
        · exact h.setSlot hk _

theorem remove (h : m.Vacant key) (k : PeerKey) : (m.remove k).2.Vacant key := by
  unfold Members.remove
  split
  · exact h
  · next slot _ =>
    split
    · exact h.erase k
    · exact ((h.dropTimer slot.timer).erase k).note _

/-! ## What the listener is told -/

section Tell

variable {tell : Tell} (spares : Spares tell key)
include spares

theorem fail (h : m.Vacant key) (k : PeerKey) : (m.fail tell k).2.Vacant key := by
  unfold Members.fail
  split
  · exact h
  · next slot hs =>
    have hk := h.ne_of_tracked (slot?_eq_some_iff.1 hs).1
    split
    · exact h
    · have told := spares (.removed k) _ (h.setSlot hk { slot with peer := (m.noteFailure slot.peer).2 })
      exact (told.count Tally.removed).afterFailure hk _ _

theorem foldl_react (h : m.Vacant key) {requests : List Request}
    (reports : ∀ request ∈ requests, ∃ k, request = .fail k) :
    (requests.foldl (react tell) m).Vacant key := by
  induction requests generalizing m with
  | nil => exact h
  | cons request rest ih =>
    obtain ⟨k, rfl⟩ := reports request List.mem_cons_self
    have answered : (react tell m (.fail k)).Vacant key := (h.fail spares k).congr rfl rfl rfl rfl
    exact ih answered fun q hq => reports q (List.mem_cons_of_mem _ hq)

theorem withdraw (h : m.Vacant key) (k : PeerKey) : (withdraw tell k m).2.Vacant key := by
  have removed := h.remove k
  unfold Members.withdraw
  split
  · next heq => rwa [heq] at removed
  · next peer m' heq =>
    rw [heq] at removed
    have told : (if peer.failed then m' else (tell (.removed k) m').count Tally.removed).Vacant key := by
      split
      · exact removed
      · exact (spares _ _ removed).count _
    exact told.write _

theorem present (h : m.Vacant key) (record : Record) : (m.present tell record).2.Vacant key := by
  cases hs : m.slot? record.key with
  | none =>
    simp only [Members.present, hs]
    exact h
  | some slot =>
    have hk := h.ne_of_tracked (slot?_eq_some_iff.1 hs).1
    cases hf : slot.peer.failed with
    | true =>
      rw [present_of_failed hs hf]
      have back := (h.dropTimer slot.timer).setSlot hk
        { slot.cancel with peer := m.restoredPeer slot record }
      exact (spares (.added record) _ (back.note _)).count _
    | false =>
      rw [present_of_healthy hs hf]
      split
      · exact (h.setSlot hk _).note _
      · exact h.setSlot hk _

theorem keep (h : m.Vacant key) (e : PeerKey × Record) : (keep tell e m).2.Vacant key := by
  have presented := h.present spares e.2
  unfold Members.keep
  split
  · next heq =>
    rw [heq] at presented
    exact presented.write _
  · next heq => rwa [heq] at presented

theorem announce (h : m.Vacant key) (k : PeerKey) : (m.announce tell k).2.Vacant key := by
  unfold Members.announce
  split
  · exact h
  · split
    · exact h
    · exact ((spares _ _ h).count _).write _

theorem enrol (h : m.Vacant key) {e : PeerKey × Record} (own : e.2.key = e.1) (hk : key ≠ e.1) :
    (enrol tell e m).2.Vacant key := by
  have tracked := h.upsert e.2 (own ▸ hk)
  unfold Members.enrol
  split
  · next heq =>
    rw [heq] at tracked
    exact tracked.announce spares e.1
  · next heq => rwa [heq] at tracked

end Tell

theorem sweep {α : Type} {f : α → Members → Bool × Members} {l : List α}
    (step : ∀ a ∈ l, ∀ m, m.Vacant key → (f a m).2.Vacant key) (h : m.Vacant key) :
    (sweep f l m).2.Vacant key := by
  induction l generalizing m with
  | nil => exact h
  | cons a rest ih =>
    exact ih (fun b hb => step b (List.mem_cons_of_mem _ hb)) (step a List.mem_cons_self m h)

end Members.Vacant

/-- A report of a failure makes nobody tracked, and excludes nobody who is not. -/
theorem tellWithin_spares (key : PeerKey) : ∀ depth, Spares (tellWithin depth) key
  | 0 => fun _ _ h => h.congr rfl rfl rfl rfl
  | depth + 1 => fun notice m h => by
    rw [tellWithin]
    dsimp only
    split
    · exact h.congr rfl rfl rfl rfl
    · next reaction others hr =>
      obtain ⟨mine, rest⟩ := mem_of_takeReaction hr
      have heard : Members.Vacant { record notice m with reactions := others } key :=
        ⟨h.running, h.admitted, h.untracked, fun r hr' => h.polite r (rest r hr')⟩
      exact heard.foldl_react (tellWithin_spares key depth) (h.polite reaction mine)

theorem tell_spares (key : PeerKey) : Spares Members.tell key := fun notice m =>
  tellWithin_spares key m.reactions.length notice m

/-! ## Reconciliations -/

theorem sweep_append {α : Type} (f : α → Members → Bool × Members) (l l' : List α) (m : Members) :
    sweep f (l ++ l') m =
      ((sweep f l m).1 ++ (sweep f l' (sweep f l m).2).1, (sweep f l' (sweep f l m).2).2) := by
  induction l generalizing m with
  | nil => rfl
  | cons a rest ih =>
    simp only [List.cons_append, sweep, ih]
    split <;> rfl

/-- Where there is room for a peer, it is tracked and announced. -/
theorem Members.Vacant.enrolled {m : Members} {e : PeerKey × Record} (h : m.Vacant e.1)
    (own : e.2.key = e.1) : Members.enrol Members.tell e m = (true,
      ((Members.tell (.added e.2) ((m.setSlot e.1 (.fresh (.fresh e.2 m.initialDelay m.now))).note
        (.tracked e.1))).count Tally.added).write (.added e.1)) := by
  obtain ⟨k, r⟩ := e
  obtain rfl : r.key = k := own
  rw [Members.enrol, upsert_of_untracked h.running h.admitted h.untracked]
  dsimp only
  rw [announce_fresh]

section Reconcile

variable {m : Members} {candidates : KeyMap Record}

/-- Peers that go and peers that stay leave room for a newcomer. -/
theorem kept_vacant (sound : Sound ⟨[], m⟩) (polite : m.Polite) (running : m.closed = false)
    (own : ∀ e ∈ candidates.entries, e.2.key = e.1 ∧ m.isExcluded e.1 = false)
    {e : PeerKey × Record} (new : e ∈ m.newcomers candidates) :
    let withdrawn := sweep (withdraw Members.tell) (m.unlisted candidates)
      (m.note (.resolved candidates))
    let kept := sweep (keep Members.tell) (m.retained candidates) withdrawn.2
    Steps ⟨[.cycling candidates], m.note (.resolved candidates)⟩ ⟨[.cycling candidates], kept.2⟩ ∧
      kept.2.Vacant e.1 := by
  intro withdrawn kept
  have sound₀ := sound.step (.enter candidates own)
  have vacant₀ : (m.note (.resolved candidates)).Vacant e.1 := by
    obtain ⟨entry, untracked⟩ := (mem_newcomers sound).1 new
    have none : m.slots.find? e.1 = none := by
      simpa [Members.contains, KeyMap.contains] using untracked
    exact ⟨running, (own e entry).2, none, polite⟩
  have withdrawing := sweep_steps (f := withdraw Members.tell) (l := m.unlisted candidates)
    (fun k hk m' h' hp' => withdraw_steps tell_tells h' hp' (by
      simpa [KeyMap.contains] using (mem_unlisted.1 hk).2)) sound₀ polite
  have vacant₁ : withdrawn.2.Vacant e.1 :=
    vacant₀.sweep fun k _ m' h' => h'.withdraw (tell_spares e.1) k
  have keeping := sweep_steps (f := keep Members.tell) (l := m.retained candidates)
    (fun a ha m' h' hp' => keep_steps tell_tells hp' (by
      have entry := (mem_retained.1 ha).1
      rw [(own a entry).1]
      exact KeyMap.find?_eq_some_iff.2 entry)) (sound₀.steps withdrawing) vacant₁.polite
  exact ⟨withdrawing.trans keeping, vacant₁.sweep fun a _ m' h' => h'.keep (tell_spares e.1) a⟩

/-- **In a reconciliation the turn of each newcomer comes.** Some steps lead to a point where there
still is room for it; there it is tracked and announced with the record of the candidates. -/
theorem reconcile_enrols (sound : Sound ⟨[], m⟩) (polite : m.Polite) (running : m.closed = false)
    (own : ∀ e ∈ candidates.entries, e.2.key = e.1 ∧ m.isExcluded e.1 = false)
    {e : PeerKey × Record} (new : e ∈ m.newcomers candidates) :
    e.1 ∈ (reconcile Members.tell candidates m).1.added ∧ ∃ m₁ m₂,
      Steps ⟨[.cycling candidates], m.note (.resolved candidates)⟩ ⟨[.cycling candidates], m₁⟩ ∧
      Step ⟨[.cycling candidates], m₁⟩ ⟨[.announcing, .cycling candidates], m₂⟩ ∧
      m₂ = record (.added e.2) ((m₁.setSlot e.1 (.fresh (.fresh e.2 m₁.initialDelay m₁.now))).note
        (.tracked e.1)) ∧
      Steps ⟨[.announcing, .cycling candidates], m₂⟩ ⟨[], (reconcile Members.tell candidates m).2⟩ := by
  obtain ⟨before, after, split⟩ := List.append_of_mem new
  have listed : ∀ a ∈ m.newcomers candidates, a.2.key = a.1 ∧
      candidates.find? a.2.key = some a.2 := fun a ha => by
    have entry := ((mem_newcomers sound).1 ha).1
    rw [(own a entry).1]
    exact ⟨rfl, KeyMap.find?_eq_some_iff.2 entry⟩
  have others : ∀ a ∈ before, e.1 ≠ a.1 := by
    have distinct := KeyMap.nodup_keys_filter candidates fun a => (m.find? a.1).isNone
    rw [show candidates.entries.filter _ = before ++ e :: after from split, List.map_append,
      List.map_cons, List.nodup_append] at distinct
    intro a ha heq
    exact distinct.2.2 _ (List.mem_map_of_mem ha) _ List.mem_cons_self heq.symm
  have enrolling : ∀ l, (∀ a ∈ l, a ∈ m.newcomers candidates) → ∀ {m' : Members},
      Sound ⟨[.cycling candidates], m'⟩ → m'.Polite → Steps ⟨[.cycling candidates], m'⟩
        ⟨[.cycling candidates], (sweep (enrol Members.tell) l m').2⟩ := fun l hl m' h' hp' =>
    sweep_steps (f := enrol Members.tell) (fun a ha m'' _ hp'' => enrol_steps tell_tells hp''
      (listed a (hl a ha)).1 (listed a (hl a ha)).2) h' hp'
  obtain ⟨keeping, vacant⟩ := kept_vacant sound polite running own new
  have sound' := (sound.step (.enter candidates own)).steps keeping
  have first := enrolling before (fun a ha => by simp [split, ha]) sound' vacant.polite
  have vacant₁ := vacant.sweep (f := enrol Members.tell) (l := before) fun a ha m' h' =>
    h'.enrol (tell_spares e.1) (listed a (by simp [split, ha])).1 (others a ha)
  have sound₁ := sound'.steps first
  rw [reconcile_eq sound]
  dsimp only
  rw [split, sweep_append, sweep, vacant₁.enrolled (listed e new).1]
  generalize (sweep (enrol Members.tell) before _).2 = m₁ at *
  -- the newcomer itself and the sweep after it
  have tracked : Step ⟨[.cycling candidates], m₁⟩ ⟨[.announcing, .cycling candidates],
      record (.added e.2) ((m₁.setSlot e.1 (.fresh (.fresh e.2 m₁.initialDelay m₁.now))).note
        (.tracked e.1))⟩ := by
    obtain ⟨hkey, hlisted⟩ := listed e new
    have st := Step.enlist vacant₁.running (hkey.symm ▸ vacant₁.admitted)
      (hkey.symm ▸ vacant₁.untracked) hlisted
    rwa [hkey] at st
  refine ⟨by simp, m₁, _, keeping.trans first, tracked, rfl, ?_⟩
  have told : ∀ m' : Members, m'.Polite →
      Steps ⟨[.announcing, .cycling candidates], record (.added e.2) m'⟩
        ⟨[.cycling candidates],
          ((Members.tell (.added e.2) m').count Tally.added).write (.added e.1)⟩ := fun m' hp' =>
    ((tell_tells _ _ _ hp').tail .announced).trans (steps_write _ _ _)
  have heard := told ((m₁.setSlot e.1 (.fresh (.fresh e.2 m₁.initialDelay m₁.now))).note
    (.tracked e.1)) vacant₁.polite
  have rest := enrolling after (fun a ha => by simp [split, ha]) ((sound₁.step tracked).steps heard)
    (heard.polite vacant₁.polite)
  exact (heard.trans rest).tail .leave

end Reconcile

end Roster
