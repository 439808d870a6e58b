import Roster.Members.Listener
import Roster.Members.Reconcile

/-!
# Proofs.Alike — counts, the log and the record decide nothing

* `Alike`: two memberships differ in these at most.
* `Agree`: two outcomes are the same, and what they leave behind is alike. One lemma for each operation.
* `Blind`: a listener that reads none of them; `tell_blind`: the listener with its reactions is one.
* `Incident`: something that happens to the peers, whoever is behind it.
-/

namespace Roster

open Members

/-- The memberships differ in their counts, their log and their record at most. -/
inductive Alike (m : Members) : Members → Prop where
  | intro (tally : Tally) (journal : List Remark) (history : List Entry) :
      Alike m { m with tally, journal, history }

/-- Two operations come to the same, and what they leave behind is alike. -/
structure Agree {α : Type} (done done' : α × Members) : Prop where
  outcome : done'.1 = done.1
  alike : Alike done.2 done'.2

namespace Alike

variable {m m' m'' : Members} {key : PeerKey}

theorem refl (m : Members) : Alike m m := .intro m.tally m.journal m.history

theorem symm (h : Alike m m') : Alike m' m := by
  cases h
  exact .intro m.tally m.journal m.history

theorem trans (h : Alike m m') (h' : Alike m' m'') : Alike m m'' := by
  cases h
  cases h'
  exact .intro _ _ _

theorem agree {α : Type} (h : Alike m m') (outcome : α) : Agree (outcome, m) (outcome, m') :=
  ⟨rfl, h⟩

/-! ### What is read -/

theorem slots (h : Alike m m') : m'.slots = m.slots := by cases h; rfl

theorem closed (h : Alike m m') : m'.closed = m.closed := by cases h; rfl

theorem now (h : Alike m m') : m'.now = m.now := by cases h; rfl

theorem policy (h : Alike m m') : m'.policy = m.policy := by cases h; rfl

theorem timers (h : Alike m m') : m'.timers = m.timers := by cases h; rfl

theorem reactions (h : Alike m m') : m'.reactions = m.reactions := by cases h; rfl

theorem slot? (h : Alike m m') (key : PeerKey) : m'.slot? key = m.slot? key := by cases h; rfl

theorem isExcluded (h : Alike m m') (key : PeerKey) : m'.isExcluded key = m.isExcluded key := by
  cases h
  rfl

theorem snapshot (h : Alike m m') : m'.snapshot = m.snapshot := by cases h; rfl

/-! ### What is written -/

theorem write (h : Alike m m') (remark remark' : Remark) :
    Alike (m.write remark) (m'.write remark') := by
  cases h
  exact .intro _ _ _

theorem note (h : Alike m m') (what what' : Happening) : Alike (m.note what) (m'.note what') := by
  cases h
  exact .intro _ _ _

theorem count (h : Alike m m') (f f' : Tally → Tally) : Alike (m.count f) (m'.count f') := by
  cases h
  exact .intro _ _ _

theorem setSlot (h : Alike m m') (key : PeerKey) (slot : Slot) :
    Alike (m.setSlot key slot) (m'.setSlot key slot) := by
  cases h
  exact .intro _ _ _

theorem erase (h : Alike m m') (key : PeerKey) :
    Alike { m with slots := m.slots.erase key } { m' with slots := m'.slots.erase key } := by
  cases h
  exact .intro _ _ _

theorem dropTimer (h : Alike m m') (timer : Option Nat) :
    Alike (m.dropTimer timer) (m'.dropTimer timer) := by
  cases h
  exact .intro _ _ _

theorem arm (h : Alike m m') (key : PeerKey) (slot : Slot) (delay : Duration) :
    Alike (m.arm key slot delay) (m'.arm key slot delay) := by
  cases h
  exact .intro _ _ _

theorem pass (h : Alike m m') (time : Nat) : Alike { m with now := time } { m' with now := time } := by
  cases h
  exact .intro _ _ _

theorem reply (h : Alike m m') (reply : Reply) :
    Alike { m with told := .reply reply :: m.told } { m' with told := .reply reply :: m'.told } := by
  cases h
  exact .intro _ _ _

theorem others (h : Alike m m') (reactions : List Reaction) :
    Alike { m with reactions } { m' with reactions } := by
  cases h
  exact .intro _ _ _

theorem record (h : Alike m m') (notice : Notice) :
    Alike (Members.record notice m) (Members.record notice m') := by
  cases h
  exact .intro _ _ _

/-! ### Operations that tell nobody -/

theorem exclude (h : Alike m m') (key : PeerKey) : Alike (m.exclude key) (m'.exclude key) := by
  unfold Members.exclude
  rw [h.slots]
  split
  · cases h
    exact .intro _ _ _
  · cases h
    exact .intro _ _ _

theorem discard (h : Alike m m') (key : PeerKey) : Alike (m.discard key) (m'.discard key) := by
  unfold Members.discard
  rw [h.slots]
  split
  · split
    · simpa [h.slots] using h.erase key
    · exact h
  · exact h

theorem upsert (h : Alike m m') (r : Record) : Agree (m.upsert r) (m'.upsert r) := by
  have fresh : Tracked.fresh r m'.initialDelay m'.now = Tracked.fresh r m.initialDelay m.now := by
    cases h
    rfl
  unfold Members.upsert
  dsimp only
  rw [h.closed, h.isExcluded, h.slots, fresh]
  split
  · exact h.agree _
  · split
    · exact h.agree _
    · split
      · exact ((h.setSlot _ _).note _ _).agree _
      · split
        · exact h.agree _
        · exact (h.setSlot _ _).agree _

theorem remove (h : Alike m m') (key : PeerKey) : Agree (m.remove key) (m'.remove key) := by
  unfold Members.remove
  rw [h.slots]
  split
  · exact h.agree _
  · next slot _ =>
    split
    · simpa [h.slots] using (h.erase key).agree none
    · exact (((h.dropTimer slot.timer).erase key).note _ _).agree _

theorem pardon (h : Alike m m') (key : PeerKey) : Agree (m.pardon key) (m'.pardon key) := by
  cases h
  exact ⟨rfl, .intro _ _ _⟩

theorem close (h : Alike m m') : Alike m.close m'.close := by
  cases h
  exact .intro _ _ _

theorem afterFailure (h : Alike m m') (key : PeerKey) (peer : Tracked) (delay : Duration) :
    Agree (m.afterFailure key peer delay) (m'.afterFailure key peer delay) := by
  unfold Members.afterFailure
  rw [h.policy]
  split
  · exact (((((h.write _ _).exclude key).count _ _).discard key).note _ _).agree _
  · rw [h.slots]
    split
    · exact ((h.arm key _ delay).note _ _).agree _
    · exact (h.note _ _).agree _

end Alike

/-- The listener reads neither counts nor the log nor the record. -/
def Blind (tell : Tell) : Prop := ∀ notice m m', Alike m m' → Alike (tell notice m) (tell notice m')

section Tell

variable {tell : Tell} (blind : Blind tell) {m m' : Members} (h : Alike m m')
include blind h

/-! ## Failures and timers -/

theorem fail_agree (key : PeerKey) : Agree (m.fail tell key) (m'.fail tell key) := by
  have noted : ∀ peer, m'.noteFailure peer = m.noteFailure peer := fun peer => by cases h; rfl
  unfold Members.fail
  rw [h.slot?]
  split
  · exact h.agree _
  · next slot _ =>
    split
    · exact h.agree _
    · rw [noted]
      exact ((blind _ _ _ (h.setSlot key _)).count _ _).afterFailure key _ _

theorem reconnect_agree (key : PeerKey) (epoch : Nat) :
    Agree (m.reconnect tell key epoch) (m'.reconnect tell key epoch) := by
  unfold Members.reconnect
  rw [h.slot?, h.policy, h.now]
  split
  · exact h.agree _
  · split
    · exact (h.setSlot _ _).agree _
    · exact ((blind _ _ _ (((h.setSlot _ _).note _ _).write _ _)).count _ _).agree _

theorem fire_agree (timer : Nat) : Agree (m.fire tell timer) (m'.fire tell timer) := by
  unfold Members.fire
  rw [h.timers]
  split
  · exact h.agree _
  · next t _ => exact reconnect_agree blind (h.dropTimer _) t.key t.epoch

/-! ## Cycles -/

theorem present_agree (r : Record) : Agree (m.present tell r) (m'.present tell r) := by
  have connected : ∀ peer, m'.connectedFor peer = m.connectedFor peer := fun peer => by cases h; rfl
  have reset : ∀ peer, m'.resetCounters peer = m.resetCounters peer := fun peer => by cases h; rfl
  unfold Members.present
  dsimp only
  rw [h.slot?]
  split
  · exact h.agree _
  · next slot _ =>
    split
    · have dropped := h.dropTimer slot.timer
      have reset' : ∀ peer, (m'.dropTimer slot.timer).resetCounters peer =
          (m.dropTimer slot.timer).resetCounters peer := reset
      rw [reset', dropped.now]
      exact ((blind _ _ _ ((dropped.setSlot _ _).note _ _)).count _ _).agree _
    · rw [h.policy, connected]
      split
      · rw [reset]
        exact ((h.setSlot _ _).note _ _).agree _
      · exact (h.setSlot _ _).agree _

theorem withdraw_agree (key : PeerKey) : Agree (withdraw tell key m) (withdraw tell key m') := by
  obtain ⟨same, removed⟩ := h.remove key
  unfold withdraw
  generalize m.remove key = done at same removed ⊢
  generalize m'.remove key = done' at same removed ⊢
  obtain ⟨found, left⟩ := done
  obtain ⟨found', left'⟩ := done'
  obtain rfl : found' = found := same
  cases found' with
  | none => exact removed.agree _
  | some peer =>
    dsimp only
    split
    · exact (removed.write _ _).agree _
    · exact (((blind _ _ _ removed).count _ _).write _ _).agree _

theorem keep_agree (e : PeerKey × Record) : Agree (keep tell e m) (keep tell e m') := by
  obtain ⟨same, presented⟩ := present_agree blind h e.2
  unfold keep
  generalize m.present tell e.2 = done at same presented ⊢
  generalize m'.present tell e.2 = done' at same presented ⊢
  obtain ⟨found, left⟩ := done
  obtain ⟨found', left'⟩ := done'
  obtain rfl : found' = found := same
  cases found' with
  | restored reset => exact (presented.write _ _).agree _
  | _ => exact presented.agree _

theorem announce_agree (key : PeerKey) : Agree (announce tell key m) (announce tell key m') := by
  unfold announce
  rw [h.slot?]
  split
  · exact h.agree _
  · split
    · exact h.agree _
    · exact (((blind _ _ _ h).count _ _).write _ _).agree _

theorem enrol_agree (e : PeerKey × Record) : Agree (enrol tell e m) (enrol tell e m') := by
  obtain ⟨same, tracked⟩ := h.upsert e.2
  unfold enrol
  generalize m.upsert e.2 = done at same tracked ⊢
  generalize m'.upsert e.2 = done' at same tracked ⊢
  obtain ⟨found, left⟩ := done
  obtain ⟨found', left'⟩ := done'
  obtain rfl : found' = found := same
  cases found' with
  | inserted peer => exact announce_agree blind tracked e.1
  | _ => exact tracked.agree _

omit blind in
theorem sweep_agree {α : Type} {step : α → Members → Bool × Members}
    (agree : ∀ a m m', Alike m m' → Agree (step a m) (step a m')) (l : List α) :
    Agree (sweep step l m) (sweep step l m') := by
  induction l generalizing m m' with
  | nil => exact h.agree _
  | cons a rest ih =>
    obtain ⟨hit, one⟩ := agree a m m' h
    obtain ⟨hits, all⟩ := ih one
    refine ⟨?_, all⟩
    show (if (step a m').1 then a :: _ else _) = (if (step a m).1 then a :: _ else _)
    rw [hit, hits]

theorem reconcile_agree (candidates : KeyMap Record) :
    Agree (m.reconcile tell candidates) (m'.reconcile tell candidates) := by
  unfold Members.reconcile
  dsimp only
  rw [h.snapshot]
  obtain ⟨removed, one⟩ := sweep_agree (h.note (.resolved candidates) (.resolved candidates))
    (fun key _ _ h => withdraw_agree blind h key)
    ((m.snapshot.map (·.key)).filter fun k => !candidates.contains k)
  obtain ⟨restored, two⟩ := sweep_agree one (fun entry _ _ h => keep_agree blind h entry)
    (candidates.entries.filter fun e => (m.snapshot.map (·.key)).contains e.1)
  obtain ⟨added, three⟩ := sweep_agree two (fun entry _ _ h => enrol_agree blind h entry)
    (candidates.entries.filter fun e => !(m.snapshot.map (·.key)).contains e.1)
  refine ⟨?_, three.note _ _⟩
  rw [removed, restored, added]

/-! ## The listener -/

theorem perform_agree (request : Request) :
    Agree (m.perform tell request) (m'.perform tell request) := by
  have through : ∀ {α : Type} {done done' : α × Members} (reply : α → Reply), Agree done done' →
      Agree (reply done.1, done.2) (reply done'.1, done'.2) := fun reply agree =>
    ⟨congrArg reply agree.outcome, agree.alike⟩
  cases request with
  | upsert r => exact through .upsert (h.upsert r)
  | remove key => exact through .peer (h.remove key)
  | fail key => exact through .failed (fail_agree blind h key)
  | present r => exact through .presence (present_agree blind h r)
  | pardon key => exact through .flag (h.pardon key)
  | close => exact h.close.agree _
  | _ =>
    cases h
    exact ⟨rfl, .intro _ _ _⟩

theorem react_alike (request : Request) : Alike (react tell m request) (react tell m' request) := by
  obtain ⟨same, done⟩ := perform_agree blind h request
  unfold react
  dsimp only
  rw [same]
  exact done.reply _

theorem foldl_react_alike (requests : List Request) :
    Alike (requests.foldl (react tell) m) (requests.foldl (react tell) m') := by
  induction requests generalizing m m' with
  | nil => exact h
  | cons request rest ih => exact ih (react_alike blind h request)

end Tell

theorem tellWithin_blind : ∀ depth, Blind (tellWithin depth)
  | 0 => fun notice _ _ h => h.record notice
  | depth + 1 => fun notice m m' h => by
    have told := h.record notice
    rw [tellWithin]
    dsimp only
    rw [told.reactions]
    split
    · exact told
    · exact foldl_react_alike (tellWithin_blind depth) (told.others _) _

/-- **The listener with its reactions is blind** to counts, the log and the record. -/
theorem tell_blind : Blind Members.tell := fun notice m m' h => by
  rw [Members.tell, Members.tell, h.reactions]
  exact tellWithin_blind _ notice m m' h

/-! ## Whatever happens -/

/-- Something that happens to the peers. -/
inductive Incident where
  /-- A reconnect timer goes off. -/
  | fire (timer : Nat)
  | fail (key : PeerKey)
  | pardon (key : PeerKey)
  /-- The clock moves on. -/
  | pass (time : Nat)
  /-- Everything is over. -/
  | close
  /-- A cycle makes the candidates the tracked peers. -/
  | apply (candidates : KeyMap Record)

def Incident.carryOut : Incident → Members → Members
  | fire timer, m => (m.fire Members.tell timer).2
  | fail key, m => (m.fail Members.tell key).2
  | pardon key, m => (m.pardon key).2
  | pass time, m => { m with now := time }
  | close, m => m.close
  | apply candidates, m => (m.reconcile Members.tell candidates).2

theorem Incident.alike (i : Incident) {m m' : Members} (h : Alike m m') :
    Alike (i.carryOut m) (i.carryOut m') := by
  cases i with
  | fire timer => exact (fire_agree tell_blind h timer).alike
  | fail key => exact (fail_agree tell_blind h key).alike
  | pardon key => exact (h.pardon key).alike
  | pass time => exact h.pass time
  | close => exact h.close
  | apply candidates => exact (reconcile_agree tell_blind h candidates).alike

end Roster
