import Roster.Proofs.Newcomers
import Roster.Proofs.Epochs

/-!
# Proofs.Listing — the tracked peers are those that the latest cycle listed

* `listed?`: the record under which the history lists a peer. `announcements`: the announcements that
  the history calls for, each under the record of its time.
* `Abides`: what may become of a peer while no cycle lists peers anew. `Voiced`: the listener was told
  of each announcement. `Heeds`: a listener that disturbs neither; `tell_heeds`: the listener with its
  reactions is one.
* `Settled`: whoever is tracked is tracked as listed. One lemma for each operation.
-/

namespace Roster

open Members Relation

/-! ## What the history says -/

/-- The record under which a peer is listed: that of the latest cycle with an answer, unless the peer
was excluded since. -/
def listed? (key : PeerKey) : List Entry → Option Record
  | [] => none
  | entry :: past => match entry.what with
    | .resolved candidates => candidates.find? key
    | .excluded k => if k = key then none else listed? key past
    | _ => listed? key past

/-- The announcements that the history calls for, latest first: the time of each, and the record under
which the peer was listed then. -/
def announcements : List Entry → List (Nat × Option Record)
  | [] => []
  | entry :: past => match entry.what with
    | .tracked key | .reconnected key | .restored key _ =>
      (entry.time, listed? key past) :: announcements past
    | _ => announcements past

/-- The announcement that the listener was told of. -/
def Told.announcement? : Told → Option (Nat × Option Record)
  | .notice time (.added record) => some (time, some record)
  | _ => none

/-- The listener was told of each announcement that the history calls for, and of no other. -/
def Members.Voiced (m : Members) : Prop :=
  m.told.filterMap Told.announcement? = announcements m.history

/-- The record under which a peer is tracked. -/
def Members.record? (m : Members) (key : PeerKey) : Option Record := (m.find? key).map (·.record)

/-- After a cycle with an answer and no exclusion since, its candidates are listed. -/
theorem listed?_append {key : PeerKey} {later past : List Entry} {time : Nat}
    {candidates : KeyMap Record} (latest : ∀ entry ∈ later, ∀ c, entry.what ≠ .resolved c) :
    ((∃ entry ∈ later, entry.what = .excluded key) ∧
        listed? key (later ++ ⟨time, .resolved candidates⟩ :: past) = none) ∨
      ((∀ entry ∈ later, entry.what ≠ .excluded key) ∧
        listed? key (later ++ ⟨time, .resolved candidates⟩ :: past) = candidates.find? key) := by
  induction later with
  | nil => exact .inr ⟨by simp, rfl⟩
  | cons entry rest ih =>
    have before := ih fun x hx => latest x (List.mem_cons_of_mem _ hx)
    obtain ⟨t, what⟩ := entry
    cases what with
    | resolved c => exact absurd rfl (latest _ List.mem_cons_self c)
    | excluded k =>
      by_cases hk : k = key
      · subst hk
        exact .inl ⟨⟨_, List.mem_cons_self, rfl⟩, if_pos rfl⟩
      · have same : listed? key (⟨t, .excluded k⟩ :: rest ++ ⟨time, .resolved candidates⟩ :: past) =
            listed? key (rest ++ ⟨time, .resolved candidates⟩ :: past) := if_neg hk
        rw [same]
        refine before.imp (.imp_left ?_) (.imp_left ?_)
        · rintro ⟨x, hx, hw⟩
          exact ⟨x, List.mem_cons_of_mem _ hx, hw⟩
        · intro none x hx
          rcases List.mem_cons.1 hx with rfl | hx
          · exact fun hw => hk (Happening.excluded.inj hw)
          · exact none x hx
    | _ =>
      refine before.imp (.imp_left ?_) (.imp_left ?_)
      · rintro ⟨x, hx, hw⟩
        exact ⟨x, List.mem_cons_of_mem _ hx, hw⟩
      · intro none x hx
        rcases List.mem_cons.1 hx with rfl | hx
        · simp
        · exact none x hx

/-- Before the first cycle with an answer nobody is listed. -/
theorem listed?_of_unresolved {key : PeerKey} {history : List Entry}
    (unlisted : ∀ entry ∈ history, ∀ c, entry.what ≠ .resolved c) : listed? key history = none := by
  induction history with
  | nil => rfl
  | cons entry rest ih =>
    have before := ih fun x hx => unlisted x (List.mem_cons_of_mem _ hx)
    obtain ⟨t, what⟩ := entry
    cases what with
    | resolved c => exact absurd rfl (unlisted _ List.mem_cons_self c)
    | excluded k =>
      unfold listed?
      dsimp only
      rw [before, ite_self]
    | _ => exact before

/-- There is a latest cycle with an answer, or there was none. -/
theorem latest_resolved (history : List Entry) :
    (∀ entry ∈ history, ∀ candidates, entry.what ≠ .resolved candidates) ∨
      ∃ later time candidates past, history = later ++ ⟨time, .resolved candidates⟩ :: past ∧
        ∀ entry ∈ later, ∀ c, entry.what ≠ .resolved c := by
  induction history with
  | nil => exact .inl (by simp)
  | cons entry rest ih =>
    obtain ⟨time, what⟩ := entry
    by_cases hw : ∃ candidates, what = .resolved candidates
    · obtain ⟨candidates, rfl⟩ := hw
      exact .inr ⟨[], time, candidates, rest, rfl, by simp⟩
    · rcases ih with none | ⟨later, t, candidates, past, rfl, latest⟩
      · exact .inl (List.forall_mem_cons.2 ⟨fun c hc => hw ⟨c, hc⟩, none⟩)
      · exact .inr ⟨⟨time, what⟩ :: later, t, candidates, past, rfl,
          List.forall_mem_cons.2 ⟨fun c hc => hw ⟨c, hc⟩, latest⟩⟩

namespace Members

variable {m m' : Members} {key k : PeerKey}

theorem record?_eq (m : Members) (key : PeerKey) :
    m.record? key = (m.slot? key).map (·.peer.record) := by
  unfold record? Members.find?
  rw [Option.map_map]
  rfl

theorem record?_setSlot (m : Members) (key : PeerKey) (slot : Slot) (k : PeerKey) :
    (m.setSlot key slot).record? k =
      if k = key then (if slot.evicted then none else some slot.peer.record) else m.record? k := by
  rw [record?_eq, record?_eq, slot?_setSlot]
  by_cases hk : k = key
  · rw [if_pos hk, if_pos hk]
    split <;> rfl
  · rw [if_neg hk, if_neg hk]

theorem record?_erase (m : Members) (key k : PeerKey) :
    record? { m with slots := m.slots.erase key } k = if k = key then none else m.record? k := by
  rw [record?_eq, record?_eq, slot?_erase]
  split <;> rfl

theorem record?_of_slot? {slot : Slot} (h : m.slot? key = some slot) :
    m.record? key = some slot.peer.record := by
  rw [record?_eq, h]
  rfl

end Members

/-! ## What becomes of a peer between cycles -/

/-- The history goes on, and no cycle has had an answer. -/
def Continues (m m' : Members) : Prop :=
  ∃ later, m'.history = later ++ m.history ∧
    ∀ entry ∈ later, ∀ candidates, entry.what ≠ .resolved candidates

namespace Continues

variable {m m' m'' : Members}

theorem of_eq (history : m'.history = m.history) : Continues m m' := ⟨[], history, by simp⟩

theorem refl (m : Members) : Continues m m := of_eq rfl

theorem trans (h : Continues m m') (h' : Continues m' m'') : Continues m m'' := by
  obtain ⟨later, hl, unresolved⟩ := h
  obtain ⟨later', hl', unresolved'⟩ := h'
  refine ⟨later' ++ later, by rw [hl', hl, List.append_assoc], fun entry he => ?_⟩
  exact (List.mem_append.1 he).elim (unresolved' entry) (unresolved entry)

theorem entry {time : Nat} {what : Happening} (history : m'.history = ⟨time, what⟩ :: m.history)
    (other : ∀ candidates, what ≠ .resolved candidates) : Continues m m' :=
  ⟨[⟨time, what⟩], history, fun _ he => by rw [List.mem_singleton.1 he]; exact other⟩

end Continues

/-- What may become of a peer while no cycle lists peers anew: it stays tracked as it is listed, or it
is excluded. -/
structure Abides (key : PeerKey) (m m' : Members) : Prop where
  closed : m'.closed = m.closed
  peer : (m'.record? key = m.record? key ∧ listed? key m'.history = listed? key m.history ∧
      m'.isExcluded key = m.isExcluded key) ∨
    (m.record? key ≠ none ∧ m'.record? key = none ∧ listed? key m'.history = none ∧
      m'.isExcluded key = true)

namespace Abides

variable {m m' m'' : Members} {key k : PeerKey}

theorem of_eq (closed : m'.closed = m.closed) (record : m'.record? key = m.record? key)
    (listed : listed? key m'.history = listed? key m.history)
    (excluded : m'.isExcluded key = m.isExcluded key) : Abides key m m' :=
  ⟨closed, .inl ⟨record, listed, excluded⟩⟩

theorem refl (m : Members) : Abides key m m := of_eq rfl rfl rfl rfl

theorem trans (h : Abides key m m') (h' : Abides key m' m'') : Abides key m m'' := by
  refine ⟨h'.closed.trans h.closed, ?_⟩
  rcases h.peer with ⟨record, listed, excluded⟩ | ⟨tracked, gone, unlisted, excluded⟩
  · rw [← record, ← listed, ← excluded]
    exact h'.peer
  · rcases h'.peer with ⟨record', listed', excluded'⟩ | ⟨tracked', -⟩
    · exact .inr ⟨tracked, record'.trans gone, listed'.trans unlisted, excluded'.trans excluded⟩
    · exact absurd gone tracked'

/-- Nothing has changed that concerns the peer. -/
theorem congr (h : Abides key m m') (closed : m''.closed = m'.closed)
    (slots : m''.slots = m'.slots) (history : m''.history = m'.history)
    (excluded : m''.excluded = m'.excluded) : Abides key m m'' := by
  refine h.trans (of_eq closed ?_ (by rw [history]) (by rw [isExcluded, excluded]; rfl))
  rw [record?_eq, record?_eq, slot?, slots]
  rfl

/-- A slot changes and keeps its record. -/
theorem setSlot {slot : Slot} (h : key = k → slot.evicted = false ∧ m.record? key = some slot.peer.record) :
    Abides key m (m.setSlot k slot) := by
  refine of_eq rfl ?_ rfl rfl
  rw [record?_setSlot]
  split
  · next hk =>
    obtain ⟨live, same⟩ := h hk
    rw [live, same]
    rfl
  · rfl

theorem erase (hk : key ≠ k) : Abides key m { m with slots := m.slots.erase k } :=
  of_eq rfl ((record?_erase m k key).trans (if_neg hk)) rfl rfl

theorem exclude (hk : key ≠ k) : Abides key m (m.exclude k) := by
  have other : (m.excluded.insert k ()).contains key = m.isExcluded key := by
    rw [KeyMap.contains, KeyMap.find?_insert, if_neg hk]
    rfl
  unfold Members.exclude
  split
  · exact of_eq rfl rfl rfl other
  · next slot _ =>
    exact of_eq rfl ((record?_setSlot m k slot.evict key).trans (if_neg hk)) rfl other

theorem discard (hk : key ≠ k) : Abides key m (m.discard k) := by
  unfold Members.discard
  split
  · split
    · exact erase hk
    · exact refl m
  · exact refl m

/-- A slot is armed. -/
theorem arm {slot : Slot} (h : m.slots.find? k = some slot) (delay : Duration) :
    Abides key m (m.arm k slot delay) := by
  refine of_eq rfl ?_ rfl rfl
  rw [show (m.arm k slot delay).record? key = _ from record?_setSlot _ k _ key]
  by_cases hk : key = k
  · subst hk
    rw [if_pos rfl, record?_eq, slot?, h]
    cases he : slot.evicted <;> simp [Slot.cancel, he]
  · rw [if_neg hk]
    rfl

end Abides

/-- A peer that is given up is excluded, and nothing else is known about it. -/
theorem given_up (m : Members) (key : PeerKey) :
    let m' := ((m.exclude key).count Tally.exclusion).discard key
    m'.closed = m.closed ∧ m'.record? key = none ∧ m'.isExcluded key = true := by
  have member : (m.excluded.insert key ()).contains key = true := by
    rw [KeyMap.contains, KeyMap.find?_insert, if_pos rfl]
    rfl
  dsimp only
  cases hs : m.slots.find? key with
  | none =>
    have kept : ((m.exclude key).count Tally.exclusion).discard key =
        { m with excluded := m.excluded.insert key (), tally := m.tally.exclusion } := by
      simp [Members.exclude, Members.discard, Members.count, hs]
    rw [kept]
    exact ⟨rfl, by simp [record?_eq, slot?, hs], member⟩
  | some slot =>
    have erased : ((m.exclude key).count Tally.exclusion).discard key = { m.dropTimer slot.timer with
        excluded := m.excluded.insert key ()
        slots := (m.slots.insert key slot.evict).erase key
        tally := m.tally.exclusion } := by
      simp [Members.exclude, Members.discard, Members.count, hs, KeyMap.find?_insert, Slot.evict,
        dropTimer]
    rw [erased]
    exact ⟨rfl, by simp [record?_eq, slot?, KeyMap.find?_erase], member⟩

/-- What follows a failure goes on record. -/
theorem afterFailure_history (m : Members) (key : PeerKey) (peer : Tracked) (delay : Duration) :
    ((∃ failures, (m.afterFailure key peer delay).1 = .excluded failures) ∧
      (m.afterFailure key peer delay).2.history = ⟨m.now, .excluded key⟩ :: m.history) ∨
    ((∀ failures, (m.afterFailure key peer delay).1 ≠ .excluded failures) ∧
      (m.afterFailure key peer delay).2.history =
        ⟨m.now, .scheduled key delay peer.sustained⟩ :: m.history) := by
  unfold Members.afterFailure
  split
  · refine .inl ⟨⟨_, rfl⟩, ?_⟩
    dsimp only [Members.exclude, Members.discard, Members.count, Members.note, Members.write]
    repeat' split
    all_goals rfl
  · refine .inr ⟨by simp, ?_⟩
    dsimp only
    split <;> rfl

/-- What follows a failure concerns the failed peer alone. It is excluded, or it stays as it is. -/
theorem Abides.afterFailure {m m' : Members} {key k : PeerKey} (h : Abides key m m')
    (tracked : key = k → m.record? key ≠ none) (peer : Tracked) (delay : Duration) :
    Abides key m (m'.afterFailure k peer delay).2 := by
  unfold Members.afterFailure
  split
  · by_cases hk : key = k
    · subst hk
      obtain ⟨closed, gone, excluded⟩ := given_up (m'.write (.excluding key peer.failures)) key
      exact ⟨closed.trans h.closed, .inr ⟨tracked rfl, gone, if_pos rfl, excluded⟩⟩
    · have logged : Abides key m (m'.write (.excluding k peer.failures)) := h.congr rfl rfl rfl rfl
      have counted : Abides key m (((m'.write (.excluding k peer.failures)).exclude k).count
          Tally.exclusion) := (logged.trans (.exclude hk)).congr rfl rfl rfl rfl
      exact (counted.trans (.discard hk)).trans
        (.of_eq rfl rfl (if_neg fun heq => hk heq.symm) rfl)
  · dsimp only
    split
    · next slot hs => exact (h.trans (.arm hs delay)).trans (.of_eq rfl rfl rfl rfl)
    · exact h.trans (.of_eq rfl rfl rfl rfl)

/-! ## The listener -/

/-- The announcement of a peer under the record by which it is listed. -/
theorem Members.Voiced.added {m : Members} (h : m.Voiced) {key : PeerKey} {r : Record}
    (listed : listed? key m.history = some r) {what : Happening}
    (announces : what = .tracked key ∨ what = .reconnected key ∨ ∃ reset, what = .restored key reset) :
    (record (.added r) (m.note what)).Voiced := by
  have both : (m.now, some r) :: m.told.filterMap Told.announcement? =
      (m.now, listed? key m.history) :: announcements m.history := by rw [listed, h]
  rcases announces with rfl | rfl | ⟨reset, rfl⟩ <;> exact both

/-- What comes between one thing and the next, when the listener answers: it stays polite, each peer
stays as it is listed or is excluded, and no announcement is made. -/
structure Interlude (m m' : Members) : Prop where
  polite : m'.Polite
  continues : Continues m m'
  abides : ∀ key, Abides key m m'
  voiced : m.Voiced → m'.Voiced

namespace Interlude

variable {m m' m'' : Members}

theorem refl (polite : m.Polite) : Interlude m m := ⟨polite, .refl m, fun _ => .refl m, id⟩

theorem trans (h : Interlude m m') (h' : Interlude m' m'') : Interlude m m'' :=
  ⟨h'.polite, h.continues.trans h'.continues, fun key => (h.abides key).trans (h'.abides key),
    fun hv => h'.voiced (h.voiced hv)⟩

/-- Something else changes. -/
theorem congr (h : Interlude m m') (closed : m''.closed = m'.closed) (slots : m''.slots = m'.slots)
    (history : m''.history = m'.history) (excluded : m''.excluded = m'.excluded)
    (told : m''.told.filterMap Told.announcement? = m'.told.filterMap Told.announcement?)
    (reactions : ∀ r ∈ m''.reactions, r ∈ m'.reactions) : Interlude m m'' := by
  refine ⟨fun r hr => h.polite r (reactions r hr), h.continues.trans (.of_eq history),
    fun key => (h.abides key).congr closed slots history excluded, fun hv => ?_⟩
  unfold Members.Voiced
  rw [told, history]
  exact h.voiced hv

theorem count (h : Interlude m m') (f : Tally → Tally) : Interlude m (m'.count f) :=
  h.congr rfl rfl rfl rfl rfl fun _ => id

theorem write (h : Interlude m m') (remark : Remark) : Interlude m (m'.write remark) :=
  h.congr rfl rfl rfl rfl rfl fun _ => id

theorem dropTimer (h : Interlude m m') (id : Option Nat) : Interlude m (m'.dropTimer id) :=
  h.congr rfl rfl rfl rfl rfl fun _ hr => hr

theorem reset (h : Interlude m m') (key : PeerKey) : Interlude m (m'.note (.reset key)) :=
  ⟨h.polite, h.continues.trans (.entry rfl (by simp)),
    fun k => (h.abides k).trans (.of_eq rfl rfl rfl rfl), h.voiced⟩

end Interlude

/-- What the listener does in answer to a notice. -/
def Heeds (tell : Tell) : Prop :=
  ∀ notice m, m.Polite → Interlude (record notice m) (tell notice m)

section Tell

variable {tell : Tell} (heeds : Heeds tell) {m : Members}
include heeds

theorem Heeds.removed (polite : m.Polite) (key : PeerKey) : Interlude m (tell (.removed key) m) := by
  have recorded : Interlude m (record (.removed key) m) :=
    (Interlude.refl polite).congr rfl rfl rfl rfl rfl fun _ => id
  exact recorded.trans (heeds (.removed key) m polite)

theorem Heeds.added (polite : m.Polite) {key : PeerKey} {r : Record}
    (listed : listed? key m.history = some r) {what : Happening}
    (announces : what = .tracked key ∨ what = .reconnected key ∨ ∃ reset, what = .restored key reset) :
    Interlude m (tell (.added r) (m.note what)) := by
  have noted : Interlude m (record (.added r) (m.note what)) := by
    refine ⟨polite, .entry rfl ?_, fun k => ?_, fun hv => hv.added listed announces⟩
    · rcases announces with rfl | rfl | ⟨reset, rfl⟩ <;> simp
    · rcases announces with rfl | rfl | ⟨reset, rfl⟩ <;> exact .of_eq rfl rfl rfl rfl
  exact noted.trans (heeds (.added r) (m.note what) polite)

theorem fail_interlude (polite : m.Polite) (key : PeerKey) : Interlude m (m.fail tell key).2 := by
  unfold Members.fail
  split
  · exact .refl polite
  · next slot hs =>
    split
    · exact .refl polite
    · have tracked := record?_of_slot? hs
      have live : slot.evicted = false := (slot?_eq_some_iff.1 hs).2
      have noted : Interlude m (m.setSlot key { slot with peer := (m.noteFailure slot.peer).2 }) :=
        ⟨polite, .refl m, fun k => .setSlot fun hk => ⟨live, hk ▸ tracked⟩, id⟩
      have told := (noted.trans (heeds.removed noted.polite key)).count Tally.removed
      dsimp only
      generalize (tell (.removed key) _).count Tally.removed = m₁ at told ⊢
      obtain ⟨-, -, -, -, same, reactions⟩ := afterFailure_fixed m₁ key (m.noteFailure slot.peer).2
        (m.noteFailure slot.peer).1
      have after := afterFailure_history m₁ key (m.noteFailure slot.peer).2
        (m.noteFailure slot.peer).1
      refine ⟨fun r hr => told.polite r (by rwa [reactions] at hr), told.continues.trans ?_,
        fun k => (told.abides k).afterFailure (fun hk => by rw [hk, tracked]; simp) _ _, fun hv => ?_⟩
      · rcases after with ⟨-, hist⟩ | ⟨-, hist⟩ <;> exact .entry hist (by simp)
      · unfold Members.Voiced
        rw [same, told.voiced hv]
        rcases after with ⟨-, hist⟩ | ⟨-, hist⟩ <;> rw [hist] <;> rfl

/-- A failure excludes the peer just if that goes on record last. -/
theorem fail_excludes_iff (polite : m.Polite) (key : PeerKey) :
    (∃ failures, (m.fail tell key).1 = .excluded failures) ↔
      ∃ time past, (m.fail tell key).2.history = ⟨time, .excluded key⟩ :: past ∧
        m.history <:+ past := by
  have unchanged : ∀ time past, m.history = ⟨time, .excluded key⟩ :: past → ¬ m.history <:+ past := by
    intro time past hist suffix
    have length := suffix.length_le
    rw [hist, List.length_cons] at length
    omega
  unfold Members.fail
  split
  · simp only [reduceCtorEq, exists_false, false_iff, not_exists, not_and]
    exact unchanged
  · next slot hs =>
    split
    · simp only [reduceCtorEq, exists_false, false_iff, not_exists, not_and]
      exact unchanged
    · have told := (heeds.removed (m := m.setSlot key { slot with peer := (m.noteFailure slot.peer).2 })
        polite key).count Tally.removed
      dsimp only
      generalize (tell (.removed key) _).count Tally.removed = m₁ at told ⊢
      obtain ⟨later, hlater, -⟩ := told.continues
      have suffix : m.history <:+ m₁.history := ⟨later, hlater.symm⟩
      rcases afterFailure_history m₁ key (m.noteFailure slot.peer).2 (m.noteFailure slot.peer).1 with
        ⟨excluded, hist⟩ | ⟨spared, hist⟩
      · exact ⟨fun _ => ⟨_, _, hist, suffix⟩, fun _ => excluded⟩
      · refine ⟨fun ⟨n, hn⟩ => absurd hn (spared n), fun ⟨time, past, hist', _⟩ => ?_⟩
        have same := (List.cons.inj (hist.symm.trans hist')).1
        cases congrArg Entry.what same

theorem foldl_react_interlude (polite : m.Polite) {requests : List Request}
    (reports : ∀ request ∈ requests, ∃ key, request = .fail key) :
    Interlude m (requests.foldl (react tell) m) := by
  induction requests generalizing m with
  | nil => exact .refl polite
  | cons request rest ih =>
    obtain ⟨key, rfl⟩ := reports request List.mem_cons_self
    have failed := fail_interlude heeds polite key
    have answered : Interlude m (react tell m (.fail key)) :=
      failed.congr rfl rfl rfl rfl rfl fun _ => id
    exact answered.trans (ih answered.polite fun q hq => reports q (List.mem_cons_of_mem _ hq))

end Tell

/-- Reports of failures announce nobody, however deep they go. -/
theorem tellWithin_heeds : ∀ depth, Heeds (tellWithin depth)
  | 0 => fun _ _ polite => .refl polite
  | depth + 1 => fun notice m polite => by
    rw [tellWithin]
    dsimp only
    split
    · exact .refl polite
    · next reaction others hr =>
      obtain ⟨mine, rest⟩ := mem_of_takeReaction hr
      have taken : Interlude (record notice m) { record notice m with reactions := others } :=
        (Interlude.refl (m := record notice m) polite).congr rfl rfl rfl rfl rfl rest
      exact taken.trans
        (foldl_react_interlude (tellWithin_heeds depth) taken.polite (polite reaction mine))

theorem tell_heeds : Heeds Members.tell := fun notice m => tellWithin_heeds m.reactions.length notice m

/-! ## Timers -/

/-- The peer is tracked as it is listed, unless everything is over. -/
def Members.Settled (m : Members) (key : PeerKey) : Prop :=
  m.record? key = listed? key m.history ∨ (m.closed = true ∧ m.record? key = none)

theorem Abides.settled {m m' : Members} {key : PeerKey} (h : Abides key m m') (hs : m.Settled key) :
    m'.Settled key := by
  rcases h.peer with ⟨record, listed, -⟩ | ⟨-, gone, unlisted, -⟩
  · unfold Members.Settled
    rw [record, listed, h.closed]
    exact hs
  · exact .inl (gone.trans unlisted.symm)

/-- Whoever is tracked is tracked as listed. -/
theorem Members.Settled.listed {m : Members} {key : PeerKey} {r : Record} (h : m.Settled key)
    (tracked : m.record? key = some r) : listed? key m.history = some r := by
  rcases h with same | ⟨-, gone⟩
  · exact same.symm.trans tracked
  · rw [tracked] at gone
    cases gone

section Timer

variable {tell : Tell} (heeds : Heeds tell) {m : Members}
include heeds

/-- A timer announces its peer under the record by which it is listed. -/
theorem reconnect_interlude (polite : m.Polite) {key : PeerKey} (settled : m.Settled key)
    (epoch : Nat) : Interlude m (m.reconnect tell key epoch).2 := by
  unfold Members.reconnect
  split
  · exact .refl polite
  · next slot hclaim =>
    obtain ⟨before, hs, hclaim⟩ := Option.bind_eq_some_iff.1 hclaim
    have live := (slot?_eq_some_iff.1 hs).2
    have claimed : slot = { before with timer := none, peer := { before.peer with pending := false } } := by
      unfold Slot.claim? at hclaim
      split at hclaim
      · cases hclaim
      · exact (Option.some.inj hclaim).symm
    subst claimed
    have tracked := record?_of_slot? hs
    split
    · exact ⟨polite, .refl m, fun k => .setSlot fun hk => ⟨live, hk ▸ tracked⟩, id⟩
    · dsimp only
      generalize hback : Slot.mk { before.peer with
        pending := false, delay := m.policy.nextDelay before.peer.delay, connectTime := m.now
        failed := false } none before.epoch before.evicted = back
      have set : Interlude m (m.setSlot key back) :=
        ⟨polite, .refl m, fun k => .setSlot fun hk => ⟨hback ▸ live, hback ▸ hk ▸ tracked⟩, id⟩
      have logged := set.write (.reconnecting key (m.policy.nextDelay before.peer.delay))
      have listed := ((logged.abides key).settled settled).listed (r := before.peer.record) (by
        exact (record?_setSlot m key back key).trans (by rw [if_pos rfl, ← hback]; simp [live]))
      exact (logged.trans (heeds.added logged.polite listed (.inr (.inl rfl)))).count _

theorem fire_interlude (polite : m.Polite) (settled : ∀ key, m.Settled key) (timer : Nat) :
    Interlude m (m.fire tell timer).2 := by
  unfold Members.fire
  split
  · exact .refl polite
  · next t _ =>
    have dropped := (Interlude.refl polite).dropTimer (some timer)
    exact dropped.trans (reconnect_interlude heeds dropped.polite
      ((dropped.abides t.key).settled (settled t.key)) t.epoch)

end Timer

/-! ## Cycles -/

/-- While a cycle is under way the peer is listed as it should be, or it was excluded meanwhile. -/
def Due (candidates : KeyMap Record) (key : PeerKey) (m : Members) : Prop :=
  listed? key m.history = candidates.find? key ∨
    (m.record? key = none ∧ listed? key m.history = none ∧ m.isExcluded key = true)

theorem Abides.due {m m' : Members} {key : PeerKey} {candidates : KeyMap Record}
    (h : Abides key m m') (hd : Due candidates key m) : Due candidates key m' := by
  rcases h.peer with ⟨record, listed, excluded⟩ | ⟨-, gone⟩
  · unfold Due
    rw [record, listed, excluded]
    exact hd
  · exact .inr gone

/-- One peer has its turn in a cycle. The others stay as they are listed, or are excluded. -/
structure Turn (candidates : KeyMap Record) (key : PeerKey) (m m' : Members) : Prop where
  polite : m'.Polite
  continues : Continues m m'
  others : ∀ k, k ≠ key → Abides k m m'
  own : Due candidates key m'
  voiced : m.Voiced → m'.Voiced

namespace Turn

variable {candidates : KeyMap Record} {key : PeerKey} {m m' m'' : Members}

theorem refl (polite : m.Polite) (due : Due candidates key m) : Turn candidates key m m :=
  ⟨polite, .refl m, fun _ _ => .refl m, due, id⟩

theorem trans (h : Turn candidates key m m') (h' : Interlude m' m'') : Turn candidates key m m'' :=
  ⟨h'.polite, h.continues.trans h'.continues, fun k hk => (h.others k hk).trans (h'.abides k),
    (h'.abides key).due h.own, fun hv => h'.voiced (h.voiced hv)⟩

theorem due (h : Turn candidates key m m') (before : ∀ k, Due candidates k m) :
    ∀ k, Due candidates k m' := by
  intro k
  by_cases hk : k = key
  · exact hk ▸ h.own
  · exact (h.others k hk).due (before k)

end Turn

/-- A peer whose entry goes is tracked no longer. -/
theorem remove_turn {m : Members} {candidates : KeyMap Record} {key : PeerKey} (polite : m.Polite)
    (due : Due candidates key m) (unlisted : candidates.find? key = none) :
    Turn candidates key m (m.remove key).2 ∧ (m.remove key).2.Settled key := by
  have nowhere : listed? key m.history = none := due.elim (·.trans unlisted) (·.2.1)
  have erased : ∀ m' : Members, m'.slots = m.slots →
      record? { m' with slots := m'.slots.erase key } key = none ∧
        ∀ k, k ≠ key → record? { m' with slots := m'.slots.erase key } k = m.record? k := by
    intro m' same
    refine ⟨(record?_erase m' key key).trans (if_pos rfl), fun k hk => ?_⟩
    rw [record?_erase m' key k, if_neg hk, record?_eq, record?_eq, slot?, same]
    rfl
  unfold Members.remove
  split
  · next hs =>
    refine ⟨.refl polite due, .inl ?_⟩
    rw [nowhere, record?_eq, slot?, hs]
    rfl
  · next slot hs =>
    split
    · obtain ⟨gone, others⟩ := erased m rfl
      exact ⟨⟨polite, .refl m, fun k hk => .of_eq rfl (others k hk) rfl rfl,
        .inl (nowhere.trans unlisted.symm), id⟩, .inl (gone.trans nowhere.symm)⟩
    · obtain ⟨gone, others⟩ := erased (m.dropTimer slot.timer) rfl
      exact ⟨⟨polite, .entry rfl (by simp), fun k hk => .of_eq rfl (others k hk) rfl rfl,
        .inl (nowhere.trans unlisted.symm), id⟩, .inl (gone.trans nowhere.symm)⟩

/-- The slot of a peer that is listed is set anew, under the record of the candidates. -/
theorem setSlot_turn {m : Members} {candidates : KeyMap Record} {r : Record} {slot : Slot}
    (polite : m.Polite) (listed : listed? r.key m.history = some r)
    (own : candidates.find? r.key = some r) (live : slot.evicted = false)
    (record : slot.peer.record = r) :
    Turn candidates r.key m (m.setSlot r.key slot) ∧ (m.setSlot r.key slot).Settled r.key := by
  refine ⟨⟨polite, .refl m, fun k hk => .setSlot fun heq => absurd heq hk,
    .inl (listed.trans own.symm), id⟩, .inl ?_⟩
  rw [record?_setSlot, if_pos rfl, live, record]
  exact listed.symm

section Turn

variable {tell : Tell} (heeds : Heeds tell) {m : Members} {candidates : KeyMap Record}
include heeds

/-- A peer that is no longer listed is tracked no longer. -/
theorem withdraw_turn (polite : m.Polite) {key : PeerKey} (due : Due candidates key m)
    (unlisted : candidates.find? key = none) :
    Turn candidates key m (withdraw tell key m).2 ∧ (withdraw tell key m).2.Settled key := by
  obtain ⟨removed, settled⟩ := remove_turn polite due unlisted
  unfold withdraw
  split
  · next heq =>
    rw [heq] at removed settled
    exact ⟨removed, settled⟩
  · next peer m₁ heq =>
    rw [heq] at removed settled
    have after : Interlude m₁
        (if peer.failed then m₁ else (tell (.removed key) m₁).count Tally.removed) := by
      split
      · exact .refl removed.polite
      · exact (heeds.removed removed.polite key).count _
    have logged := after.write (.removed key)
    exact ⟨removed.trans logged, (logged.abides key).settled settled⟩

/-- A peer that is still listed is tracked under its new record, unless it was excluded meanwhile. -/
theorem present_turn (polite : m.Polite) {r : Record} (due : Due candidates r.key m)
    (own : candidates.find? r.key = some r) : Turn candidates r.key m (m.present tell r).2 ∧
      (m.record? r.key ≠ none ∨ m.Settled r.key → (m.present tell r).2.Settled r.key) := by
  cases hs : m.slot? r.key with
  | none =>
    have untracked : m.record? r.key = none := by rw [record?_eq, hs]; rfl
    simp only [present, hs]
    exact ⟨.refl polite due, fun h => h.resolve_left fun hne => hne untracked⟩
  | some slot =>
    have live := (slot?_eq_some_iff.1 hs).2
    have listed : listed? r.key m.history = some r := by
      refine due.elim (·.trans own) fun gone => ?_
      rw [record?_of_slot? hs] at gone
      cases gone.1
    have set : ∀ (base : Slot) (peer : Tracked), base.evicted = slot.evicted → peer.record = r →
        ∀ m', Interlude (m.setSlot r.key { base with peer }) m' →
          Turn candidates r.key m m' ∧ (m.record? r.key ≠ none ∨ m.Settled r.key → m'.Settled r.key) := by
      intro base peer same record m' after
      obtain ⟨turn, settled⟩ :=
        @setSlot_turn m candidates r { base with peer } polite listed own (same.trans live) record
      exact ⟨turn.trans after, fun _ => (after.abides r.key).settled settled⟩
    have still : ∀ slot', Interlude (m.setSlot r.key slot') (m.setSlot r.key slot') := fun _ =>
      .refl polite
    cases hf : slot.peer.failed with
    | true =>
      rw [present_of_failed hs hf]
      have dropped := (still { slot.cancel with peer := m.restoredPeer slot r }).dropTimer slot.timer
      have told := dropped.trans (heeds.added dropped.polite listed (.inr (.inr ⟨slot.peer.sustained, rfl⟩)))
      refine set slot.cancel (m.restoredPeer slot r) rfl ?_ _ (told.count Tally.added)
      dsimp only [restoredPeer, resetCounters]
      split <;> rfl
    | false =>
      rw [present_of_healthy hs hf]
      split
      · exact set slot _ rfl rfl _ ((still _).reset r.key)
      · exact set slot _ rfl rfl _ (still _)

theorem keep_turn (polite : m.Polite) {e : PeerKey × Record} (due : Due candidates e.1 m)
    (own : e.2.key = e.1) (listed : candidates.find? e.1 = some e.2) :
    Turn candidates e.1 m (keep tell e m).2 ∧
      (m.record? e.1 ≠ none ∨ m.Settled e.1 → (keep tell e m).2.Settled e.1) := by
  obtain ⟨k, r⟩ := e
  obtain rfl : r.key = k := own
  obtain ⟨turn, settled⟩ := present_turn heeds polite due listed
  unfold keep
  split
  · next reset m₁ heq =>
    have heq' : m.present tell r = (.restored reset, m₁) := heq
    rw [heq'] at turn settled
    have logged := (Interlude.refl turn.polite).write (.restored r.key reset)
    exact ⟨turn.trans logged, fun h => (logged.abides r.key).settled (settled h)⟩
  · next m₁ _ heq =>
    have heq' : (m.present tell r).2 = m₁ := congrArg Prod.snd heq
    rw [heq'] at turn settled
    exact ⟨turn, settled⟩

/-- A candidate is tracked, if there is room for it. -/
theorem enrol_turn (polite : m.Polite) {e : PeerKey × Record} (due : Due candidates e.1 m)
    (own : e.2.key = e.1) (listed : candidates.find? e.1 = some e.2) :
    Turn candidates e.1 m (enrol tell e m).2 ∧ (m.Vacant e.1 → (enrol tell e m).2.Settled e.1) := by
  obtain ⟨k, r⟩ := e
  obtain rfl : r.key = k := own
  unfold enrol
  dsimp only
  by_cases hc : m.closed = true
  · rw [show m.upsert r = (.closed, m) by simp [upsert, hc]]
    exact ⟨.refl polite due, fun h => absurd (hc.symm.trans h.running) (by decide)⟩
  by_cases hx : m.isExcluded r.key = true
  · rw [show m.upsert r = (.excluded, m) by simp [upsert, hc, hx]]
    exact ⟨.refl polite due, fun h => absurd (hx.symm.trans h.admitted) (by decide)⟩
  replace hc := Bool.eq_false_iff.2 hc
  replace hx := Bool.eq_false_iff.2 hx
  have here : listed? r.key m.history = some r := by
    refine due.elim (·.trans listed) fun gone => ?_
    rw [hx] at gone
    cases gone.2.2
  cases hs : m.slots.find? r.key with
  | none =>
    rw [upsert_of_untracked hc hx hs]
    dsimp only
    rw [announce_fresh]
    obtain ⟨turn, settled⟩ :=
      @setSlot_turn m candidates r (.fresh (.fresh r m.initialDelay m.now)) polite here listed rfl rfl
    have told := ((heeds.added turn.polite here (.inl rfl)).count Tally.added).write (.added r.key)
    exact ⟨turn.trans told, fun _ => (told.abides r.key).settled settled⟩
  | some slot =>
    refine ⟨?_, fun h => by rw [h.untracked] at hs; cases hs⟩
    by_cases he : slot.evicted = true
    · rw [show m.upsert r = (.closed, m) by simp [upsert, hc, hx, hs, he]]
      exact .refl polite due
    · replace he := Bool.eq_false_iff.2 he
      rw [upsert_of_tracked hc hx hs he]
      exact (@setSlot_turn m candidates r { slot with peer := { slot.peer with record := r } } polite
        here listed he rfl).1

end Turn

/-! ## One after the other -/

/-- These peers have had their turns in a cycle. -/
structure Turns (candidates : KeyMap Record) (keys : List PeerKey) (m m' : Members) : Prop where
  polite : m'.Polite
  due : ∀ k, Due candidates k m'
  continues : Continues m m'
  voiced : m.Voiced → m'.Voiced
  others : ∀ k, k ∉ keys → Abides k m m'

section Sweep

variable {α : Type} {f : α → Members → Bool × Members} {key : α → PeerKey} {l : List α}
  {candidates : KeyMap Record}

/-- A sweep over peers that each have their turn. Those that have none stay as they are listed, or are
excluded. -/
theorem sweep_turns (turn : ∀ a ∈ l, ∀ m, m.Polite → (∀ k, Due candidates k m) →
      Turn candidates (key a) m (f a m).2) {m : Members} (polite : m.Polite)
    (due : ∀ k, Due candidates k m) : Turns candidates (l.map key) m (sweep f l m).2 := by
  induction l generalizing m with
  | nil => exact ⟨polite, due, .refl m, id, fun _ _ => .refl m⟩
  | cons a rest ih =>
    have mine := turn a List.mem_cons_self m polite due
    have theirs := ih (fun b hb => turn b (List.mem_cons_of_mem _ hb)) mine.polite (mine.due due)
    refine ⟨theirs.polite, theirs.due, mine.continues.trans theirs.continues,
      fun hv => theirs.voiced (mine.voiced hv), fun k hk => ?_⟩
    rw [List.map_cons, List.mem_cons, not_or] at hk
    exact (mine.others k hk.1).trans (theirs.others k hk.2)

/-- What a peer has come to in its turn, it still is at the end of the sweep. -/
theorem sweep_settles (turn : ∀ a ∈ l, ∀ m, m.Polite → (∀ k, Due candidates k m) →
      Turn candidates (key a) m (f a m).2) (distinct : (l.map key).Nodup) {a : α} (ha : a ∈ l)
    {P : Members → Prop} (kept : ∀ b ∈ l, key a ≠ key b → ∀ m, Turn candidates (key b) m (f b m).2 →
      P m → P (f b m).2)
    (settles : ∀ m, m.Polite → (∀ k, Due candidates k m) → P m → (f a m).2.Settled (key a))
    {m : Members} (polite : m.Polite) (due : ∀ k, Due candidates k m) (hP : P m) :
    (sweep f l m).2.Settled (key a) := by
  induction l generalizing m with
  | nil => cases ha
  | cons b rest ih =>
    obtain ⟨fresh, distinct'⟩ := List.nodup_cons.1 distinct
    have mine := turn b List.mem_cons_self m polite due
    have turn' := fun c hc => turn c (List.mem_cons_of_mem b hc)
    rcases List.mem_cons.1 ha with rfl | ha
    · have theirs := sweep_turns turn' mine.polite (mine.due due)
      exact (theirs.others _ fresh).settled (settles m polite due hP)
    · have apart : key a ≠ key b := fun heq => fresh (heq ▸ List.mem_map_of_mem ha)
      exact ih turn' distinct' ha (fun c hc => kept c (List.mem_cons_of_mem b hc)) mine.polite
        (mine.due due) (kept b List.mem_cons_self apart m mine hP)

end Sweep

/-- A peer that is tracked stays so, or it is excluded. -/
theorem Abides.tracked {m m' : Members} {key : PeerKey} (h : Abides key m m')
    (ht : m.record? key ≠ none ∨ m.Settled key) : m'.record? key ≠ none ∨ m'.Settled key := by
  rcases ht with tracked | settled
  · rcases h.peer with ⟨same, -⟩ | ⟨-, gone, unlisted, -⟩
    · exact .inl (same ▸ tracked)
    · exact .inr (.inl (gone.trans unlisted.symm))
  · exact .inr (h.settled settled)

section Reconcile

variable {m : Members} {candidates : KeyMap Record}

theorem record?_of_untracked {key : PeerKey} (h : m.slots.find? key = none) : m.record? key = none := by
  rw [record?_eq, slot?, h]
  rfl

/-- The peers that go are tracked no longer. -/
theorem withdraw_all {l : List PeerKey} (polite : m.Polite) (due : ∀ k, Due candidates k m)
    (unlisted : ∀ k ∈ l, candidates.find? k = none) (distinct : l.Nodup) :
    Turns candidates l m (sweep (withdraw Members.tell) l m).2 ∧
      ∀ k ∈ l, (sweep (withdraw Members.tell) l m).2.Settled k := by
  have turn : ∀ k ∈ l, ∀ m', m'.Polite → (∀ k, Due candidates k m') →
      Turn candidates (id k) m' (withdraw Members.tell k m').2 := fun k hk m' hp hd =>
    (withdraw_turn tell_heeds hp (hd k) (unlisted k hk)).1
  have turns := sweep_turns turn polite due
  rw [List.map_id] at turns
  refine ⟨turns, fun k hk => ?_⟩
  exact sweep_settles turn (by rwa [List.map_id]) hk (P := fun _ => True) (fun _ _ _ _ _ => id)
    (fun m' hp hd _ => (withdraw_turn tell_heeds hp (hd k) (unlisted k hk)).2) polite due trivial

/-- The peers that stay are tracked under their new records. -/
theorem keep_all {l : List (PeerKey × Record)} (polite : m.Polite) (due : ∀ k, Due candidates k m)
    (listed : ∀ e ∈ l, e.2.key = e.1 ∧ candidates.find? e.1 = some e.2)
    (distinct : (l.map (·.1)).Nodup) :
    Turns candidates (l.map (·.1)) m (sweep (keep Members.tell) l m).2 ∧
      ∀ e ∈ l, m.record? e.1 ≠ none ∨ m.Settled e.1 →
        (sweep (keep Members.tell) l m).2.Settled e.1 := by
  have turn : ∀ e ∈ l, ∀ m', m'.Polite → (∀ k, Due candidates k m') →
      Turn candidates e.1 m' (keep Members.tell e m').2 := fun e he m' hp hd =>
    (keep_turn tell_heeds hp (hd e.1) (listed e he).1 (listed e he).2).1
  refine ⟨sweep_turns turn polite due, fun e he => ?_⟩
  exact sweep_settles turn distinct he (P := fun m' => m'.record? e.1 ≠ none ∨ m'.Settled e.1)
    (fun b _ apart m' mine => (mine.others e.1 apart).tracked)
    (fun m' hp hd => (keep_turn tell_heeds hp (hd e.1) (listed e he).1 (listed e he).2).2) polite due

/-- The peers that come are tracked if there is room for them. -/
theorem enrol_all {l : List (PeerKey × Record)} (polite : m.Polite) (due : ∀ k, Due candidates k m)
    (listed : ∀ e ∈ l, e.2.key = e.1 ∧ candidates.find? e.1 = some e.2)
    (distinct : (l.map (·.1)).Nodup) :
    Turns candidates (l.map (·.1)) m (sweep (enrol Members.tell) l m).2 ∧
      ∀ e ∈ l, m.Vacant e.1 → (sweep (enrol Members.tell) l m).2.Settled e.1 := by
  have turn : ∀ e ∈ l, ∀ m', m'.Polite → (∀ k, Due candidates k m') →
      Turn candidates e.1 m' (enrol Members.tell e m').2 := fun e he m' hp hd =>
    (enrol_turn tell_heeds hp (hd e.1) (listed e he).1 (listed e he).2).1
  refine ⟨sweep_turns turn polite due, fun e he => ?_⟩
  exact sweep_settles turn distinct he (P := fun m' => m'.Vacant e.1)
    (fun b hb apart m' _ vacant => vacant.enrol (tell_spares e.1) (listed b hb).1 apart)
    (fun m' hp hd => (enrol_turn tell_heeds hp (hd e.1) (listed e he).1 (listed e he).2).2) polite due

/-- **A reconciliation tracks its candidates under their records**, but for those that are excluded
while it is under way, and tracks nobody else. It announces peers under these records only. -/
theorem reconcile_settles (sound : Sound ⟨[], m⟩) (polite : m.Polite)
    (own : ∀ e ∈ candidates.entries, e.2.key = e.1 ∧ m.isExcluded e.1 = false) :
    Continues (m.note (.resolved candidates)) (reconcile Members.tell candidates m).2 ∧
      (m.Voiced → (reconcile Members.tell candidates m).2.Voiced) ∧
      ∀ key, (reconcile Members.tell candidates m).2.Settled key := by
  cases ended : m.closed with
  | true =>
    rw [reconcile_of_closed sound ended]
    exact ⟨.entry rfl (by simp), id, fun key => .inr ⟨ended, record?_of_untracked (sound.closed ended key)⟩⟩
  | false =>
    have listed : ∀ e ∈ candidates.entries, e.2.key = e.1 ∧ candidates.find? e.1 = some e.2 :=
      fun e he => ⟨(own e he).1, KeyMap.find?_eq_some_iff.2 he⟩
    have vacant := fun e (he : e ∈ m.newcomers candidates) => (kept_vacant sound polite ended own he).2
    rw [reconcile_eq sound]
    dsimp only at vacant ⊢
    obtain ⟨going, gone⟩ := withdraw_all (m := m.note (.resolved candidates)) (l := m.unlisted candidates)
      polite (fun k => .inl rfl) (fun k hk => by simpa [KeyMap.contains] using (mem_unlisted.1 hk).2)
      (m.slots.keys_nodup.filter _)
    generalize sweep (withdraw Members.tell) (m.unlisted candidates)
      (m.note (.resolved candidates)) = withdrawn at *
    obtain ⟨staying, stays⟩ := keep_all (l := m.retained candidates) going.polite going.due
      (fun e he => listed e (mem_retained.1 he).1) (candidates.nodup_keys_filter _)
    generalize sweep (keep Members.tell) (m.retained candidates) withdrawn.2 = kept at *
    obtain ⟨coming, comes⟩ := enrol_all (l := m.newcomers candidates) staying.polite staying.due
      (fun e he => listed e ((mem_newcomers sound).1 he).1) (candidates.nodup_keys_filter _)
    generalize sweep (enrol Members.tell) (m.newcomers candidates) kept.2 = enrolled at *
    refine ⟨((going.continues.trans staying.continues).trans coming.continues).trans (.entry rfl (by simp)),
      fun hv => coming.voiced (staying.voiced (going.voiced hv)), fun key => ?_⟩
    show enrolled.2.Settled key
    cases hc : candidates.find? key with
    | none =>
      have absent := candidates.not_mem_filter_of_none hc
      refine (coming.others key (absent _)).settled ((staying.others key (absent _)).settled ?_)
      by_cases tracked : m.contains key = true
      · exact gone key (mem_unlisted.2 ⟨tracked, by rw [KeyMap.contains, hc]; rfl⟩)
      · have untracked : m.slots.find? key = none := by
          simpa [Members.contains, KeyMap.contains] using tracked
        exact (going.others key fun hm => tracked (mem_unlisted.1 hm).1).settled
          (.inl ((record?_of_untracked untracked).trans hc.symm))
    | some r =>
      have entry : (key, r) ∈ candidates.entries := KeyMap.find?_eq_some_iff.1 hc
      by_cases tracked : m.contains key = true
      · have here := mem_retained.2 ⟨entry, tracked⟩
        have untouched := going.others key (not_unlisted entry)
        refine (coming.others key (not_newcomer sound here)).settled
          (stays _ here (untouched.tracked (.inl ?_)))
        obtain ⟨slot, hs⟩ := Option.isSome_iff_exists.1 tracked
        have hslot : (m.note (.resolved candidates)).slot? key = some slot :=
          slot?_eq_some_iff.2 ⟨hs, (sound.own key slot hs).1⟩
        rw [record?_of_slot? hslot]
        simp
      · have new := (mem_newcomers sound).2 ⟨entry, Bool.eq_false_iff.2 tracked⟩
        exact comes _ new (vacant _ new)

end Reconcile

end Roster
