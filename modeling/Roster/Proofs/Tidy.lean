import Roster.Proofs.Edits

/-!
# Proofs.Tidy — the map of peers is in order, whoever uses it

* `Members.Houses`: an entry as it should be. `Members.Tidy`: all of them are.
* `Edit.tidy`: no small change disturbs that. `Edit.closed`: nor does one open what was closed.
* `Members.Tidy.snapshot_keys`, `Members.Tidy.snapshot_eq_sorted`: the copy of the tracked peers, and that
  sorting the peers gives it, in whatever order the entries come.
* `registry_stays_tidy`: what holds after any operations, in any order, and whatever the listener asks for.
-/

namespace Roster

open Members Relation

namespace Members

/-- An entry as it should be: a live slot under the key of its peer and of its peer's record. The peer is
not excluded, and peers are accepted. -/
structure Houses (m : Members) (key : PeerKey) (slot : Slot) : Prop where
  live : slot.evicted = false
  peer : slot.peer.key = key
  record : slot.peer.record.key = key
  admitted : m.isExcluded key = false
  running : m.closed = false

/-- Besides the slot itself, all that matters is who is excluded and whether peers are accepted. -/
theorem Houses.of_eq {m m' : Members} {key : PeerKey} {slot : Slot} (h : m.Houses key slot)
    (excluded : m'.isExcluded key = m.isExcluded key) (closed : m'.closed = m.closed) :
    m'.Houses key slot :=
  ⟨h.live, h.peer, h.record, excluded.trans h.admitted, closed.trans h.running⟩

/-- Every entry is as it should be. -/
def Tidy (m : Members) : Prop := ∀ key slot, m.slots.find? key = some slot → m.Houses key slot

theorem Tidy.initial (policy : Policy) (delay : Duration) (reactions : List Reaction) :
    (Members.initial policy delay reactions).Tidy := fun _ _ h => nomatch h

end Members

theorem PeerKey.not_lt_trans {a b c : PeerKey} (h : ¬ b < a) (h' : ¬ c < b) : ¬ c < a := by
  intro hca
  rcases eq_or_ne a b with rfl | other
  · exact h' hca
  · exact h' (lt_trans hca (lt_of_not_lt_of_ne h other.symm))

theorem PeerKey.not_lt_total (a b : PeerKey) : ¬ a < b ∨ ¬ b < a := by
  by_contra both
  simp only [not_or, Decidable.not_not] at both
  exact lt_irrefl a (lt_trans both.1 both.2)

/-! ## What never changes -/

/-- **No small change disturbs the order of the map.** -/
theorem Edit.tidy {m m' : Members} (tidy : m.Tidy) (h : Edit m m') : m'.Tidy := by
  intro k slot found
  cases h with
  | aside slots excluded closed =>
    rw [slots] at found
    exact (tidy k slot found).of_eq (by rw [isExcluded, excluded]; rfl) closed
  | @goOn key s s' tracked goes =>
    rw [setSlot, KeyMap.find?_insert] at found
    split at found
    · next same =>
      obtain rfl := Option.some.inj found
      subst same
      have old := tidy k s (slot?_eq_some_iff.1 tracked).1
      refine ⟨goes.live, goes.peer.trans old.peer, ?_, old.admitted, old.running⟩
      rcases goes.record with kept | refreshed
      · exact (congrArg Record.key kept).trans old.record
      · exact refreshed
    · exact (tidy k slot found).of_eq rfl rfl
  | @arm key s tracked delay =>
    rw [Members.arm, setSlot, KeyMap.find?_insert] at found
    split at found
    · next same =>
      obtain rfl := Option.some.inj found
      subst same
      have old := tidy k s tracked
      exact ⟨old.live, old.peer, old.record, old.admitted, old.running⟩
    · exact (tidy k slot found).of_eq rfl rfl
  | @track record running admitted untracked =>
    rw [note, setSlot, KeyMap.find?_insert] at found
    split at found
    · next same =>
      obtain rfl := Option.some.inj found
      subst same
      exact ⟨rfl, rfl, rfl, admitted, running⟩
    · exact (tidy k slot found).of_eq rfl rfl
  | detach key =>
    rw [KeyMap.find?_erase] at found
    split at found
    · cases found
    · exact (tidy k slot found).of_eq rfl rfl
  | giveUp key excluded slots closed =>
    rw [slots k] at found
    split at found
    · cases found
    · next other =>
      refine (tidy k slot found).of_eq ?_ closed
      rw [isExcluded, excluded, KeyMap.contains_insert, decide_eq_false other]
      rfl
  | pardon key =>
    have old := tidy k slot found
    refine old.of_eq ?_ rfl
    rw [isExcluded, KeyMap.contains_erase]
    exact ((congrArg (_ && ·) old.admitted).trans (Bool.and_false _)).trans old.admitted.symm
  | close => cases found

/-- What was closed stays closed. -/
theorem Edit.closed {m m' : Members} (shut : m.closed = true) (h : Edit m m') : m'.closed = true := by
  cases h with
  | aside _ _ closed => exact closed.trans shut
  | goOn => exact shut
  | arm => exact shut
  | track => exact shut
  | detach => exact shut
  | giveUp _ _ _ closed => exact closed.trans shut
  | pardon => exact shut
  | close => rfl

theorem Edits.tidy {m m' : Members} (tidy : m.Tidy) (h : Edits m m') : m'.Tidy := by
  induction h with
  | refl => exact tidy
  | tail _ st ih => exact st.tidy ih

theorem Edits.closed {m m' : Members} (shut : m.closed = true) (h : Edits m m') :
    m'.closed = true := by
  induction h with
  | refl => exact shut
  | tail _ st ih => exact st.closed ih

/-! ## What that means -/

namespace Members.Tidy

variable {m : Members} (tidy : m.Tidy)
include tidy

theorem houses {e : PeerKey × Slot} (he : e ∈ m.slots.entries) : m.Houses e.1 e.2 :=
  tidy e.1 e.2 (KeyMap.find?_eq_some_iff.2 he)

theorem slots_of_closed (shut : m.closed = true) : m.slots.entries = [] := by
  refine List.eq_nil_iff_forall_not_mem.2 fun e he => ?_
  have running := (tidy.houses he).running
  rw [shut] at running
  cases running

theorem not_excluded {key : PeerKey} (tracked : m.contains key = true) : m.isExcluded key = false := by
  obtain ⟨slot, hs⟩ := Option.isSome_iff_exists.1 tracked
  exact (tidy key slot hs).admitted

/-- The copy of the tracked peers lists the keys of the map. -/
theorem snapshot_keys : m.snapshot.map (·.key) = m.slots.keys :=
  snapshot_keys_of_own fun _ he => ⟨(tidy.houses he).live, (tidy.houses he).peer⟩

/-- In whatever order the entries come: the peers of the live slots, sorted by their keys, are the copy of
the tracked peers. -/
theorem snapshot_eq_sorted {slots : List Slot} (h : slots.Perm m.slots.values) :
    ((slots.filter (!·.evicted)).map (·.peer)).mergeSort (fun a b => !decide (b.key < a.key)) =
      m.snapshot := by
  have live : slots.filter (!·.evicted) = slots := List.filter_eq_self.2 fun s hs => by
    obtain ⟨e, he, rfl⟩ := List.mem_map.1 (h.mem_iff.1 hs)
    rw [(tidy.houses he).live]
    rfl
  have keys := m.slots.keys_pairwise
  rw [← tidy.snapshot_keys, List.pairwise_map] at keys
  have nodup := m.slots.keys_nodup
  rw [← tidy.snapshot_keys] at nodup
  set listed := (slots.map (·.peer)).mergeSort (fun a b => !decide (b.key < a.key)) with hlisted
  have perm : listed.Perm m.snapshot := by
    rw [snapshot_of_live fun e he => (tidy.houses he).live]
    refine (List.mergeSort_perm _ _).trans ((h.map _).trans ?_)
    rw [KeyMap.values, List.map_map]
    rfl
  have sorted : listed.Pairwise fun a b => (!decide (b.key < a.key)) = true := by
    refine List.pairwise_mergeSort (fun a b c hab hbc => ?_) (fun a b => ?_) _
    · simp only [Bool.not_eq_true', decide_eq_false_iff_not] at *
      exact PeerKey.not_lt_trans hab hbc
    · simp only [Bool.or_eq_true, Bool.not_eq_true', decide_eq_false_iff_not]
      exact PeerKey.not_lt_total b.key a.key
  rw [live, ← hlisted]
  -- peers with the same key are the same peer, so that the order leaves no choice
  refine perm.eq_of_pairwise (fun a b ha hb hab hba => ?_) sorted (keys.imp fun {a b} hab => ?_)
  · simp only [Bool.not_eq_true', decide_eq_false_iff_not] at hab hba
    refine List.inj_on_of_nodup_map nodup (perm.mem_iff.1 ha) hb ?_
    by_contra other
    exact hab (PeerKey.lt_of_not_lt_of_ne hba other)
  · simp only [Bool.not_eq_true', decide_eq_false_iff_not]
    exact fun hba => PeerKey.lt_irrefl _ (PeerKey.lt_trans hab hba)

/-- A tracked record is refreshed, and that is all. -/
theorem upsert_of_found {record : Record} {slot : Slot} (found : m.slots.find? record.key = some slot) :
    m.upsert record = (.updated { slot.peer with record },
      m.setSlot record.key { slot with peer := { slot.peer with record } }) := by
  have old := tidy _ _ found
  exact upsert_of_tracked old.running old.admitted found old.live

end Members.Tidy

/-- **The map of peers is in order, whoever uses it.** After any operations, in any order, and whatever the
listener asks for in between:

* every entry is a live slot under the key of its peer and of its peer's record;
* no tracked peer is excluded;
* after a `close` no peer is tracked, ever again, and no record is accepted;
* the copy of the tracked peers lists the keys of the map, each once and ascending, and sorting gives it in
  whatever order the entries come;
* tracking a record whose peer is tracked already refreshes the record of that peer and nothing else. -/
theorem registry_stays_tidy {policy : Policy} {delay : Duration} {reactions : List Reaction} {m : Members}
    (run : Operations (Members.initial policy delay reactions) m) :
    (∀ e ∈ m.slots.entries, e.2.evicted = false ∧ e.2.peer.key = e.1 ∧ e.2.peer.record.key = e.1) ∧
    (∀ key, ¬ (m.contains key = true ∧ m.isExcluded key = true)) ∧
    (∀ m', m.closed = true ∧ Operations m m' ∨ Operations m.close m' →
      m'.closed = true ∧ m'.slots.entries = [] ∧ ∀ record, m'.upsert record = (.closed, m')) ∧
    (m.snapshot.map (·.key) = m.slots.keys ∧ m.slots.keys.Pairwise (· < ·) ∧
      ∀ slots : List Slot, slots.Perm m.slots.values →
        ((slots.filter (!·.evicted)).map (·.peer)).mergeSort (fun a b => !decide (b.key < a.key)) =
          m.snapshot) ∧
    ∀ record slot, m.slots.find? record.key = some slot →
      (m.upsert record).1 = .updated { slot.peer with record } ∧
      (m.upsert record).2 = { m with slots := (m.upsert record).2.slots } ∧
      ∀ key, (m.upsert record).2.slots.find? key =
        if key = record.key then some { slot with peer := { slot.peer with record } }
        else m.slots.find? key := by
  have tidy := run.edits.tidy (.initial policy delay reactions)
  refine ⟨fun e he => ?_, fun key both => ?_, fun m' after => ?_,
    ⟨tidy.snapshot_keys, m.slots.keys_pairwise, fun slots => tidy.snapshot_eq_sorted⟩, ?_⟩
  · have houses := tidy.houses he
    exact ⟨houses.live, houses.peer, houses.record⟩
  · rw [tidy.not_excluded both.1] at both
    exact absurd both.2 (by decide)
  · have reached : m'.closed = true ∧ m'.Tidy := by
      rcases after with ⟨shut, after⟩ | after
      · exact ⟨after.edits.closed shut, after.edits.tidy tidy⟩
      · exact ⟨after.edits.closed rfl, after.edits.tidy (Edit.close.tidy tidy)⟩
    obtain ⟨shut, tidy'⟩ := reached
    exact ⟨shut, tidy'.slots_of_closed shut, fun record => by rw [upsert, if_pos shut]⟩
  · intro record slot found
    rw [tidy.upsert_of_found found]
    exact ⟨rfl, rfl, fun key => KeyMap.find?_insert _ _ _ _⟩

/-- Of three peers one fails once and is excluded, and its record is not accepted any more. The listener,
told about that, stops tracking another. Then everything is closed. -/
theorem registry_stays_tidy_until_closed :
    let policy : Policy := { Policy.standard with minConnectTime := .zero, maxFailures := 1 }
    let m := (Members.initial policy (.ofMillis 1000) [⟨false, ⟨"b"⟩, [.remove ⟨"c"⟩]⟩]).carryOut
      [.upsert (.plain "b" 0), .upsert (.plain "a" 0), .upsert (.plain "c" 0), .fail ⟨"b"⟩,
        .upsert (.plain "b" 0)]
    let refreshed : Record := ⟨"a", 0, some "g", false⟩
    m.slots.keys = [⟨"a"⟩] ∧ m.snapshot.map (·.key) = [⟨"a"⟩] ∧
    (m.isExcluded ⟨"b"⟩ = true ∧ m.contains ⟨"b"⟩ = false) ∧
    (∃ slot, m.slots.find? refreshed.key = some slot ∧
      (m.upsert refreshed).1 = .updated { slot.peer with record := refreshed } ∧
      (m.upsert refreshed).2 = { m with slots := (m.upsert refreshed).2.slots }) ∧
    (m.close.carryOut [.upsert (.plain "a" 0), .pardon ⟨"b"⟩, .upsert (.plain "b" 0)]).slots.entries =
      [] := by
  intro policy m refreshed
  have tidy := registry_stays_tidy (m := m) (Operations.carryOut _ _)
  have keys : m.slots.keys = [⟨"a"⟩] := by decide +kernel
  have excluded : m.isExcluded ⟨"b"⟩ = true := by decide +kernel
  have tracked : (m.slots.find? refreshed.key).isSome = true := by decide +kernel
  clear_value m
  obtain ⟨-, apart, shut, ⟨snapshot, -, -⟩, refresh⟩ := tidy
  obtain ⟨slot, found⟩ := Option.isSome_iff_exists.1 tracked
  obtain ⟨answer, same, -⟩ := refresh refreshed slot found
  refine ⟨keys, snapshot.trans keys, ⟨excluded, ?_⟩, ⟨slot, found, answer, same⟩, ?_⟩
  · exact Bool.eq_false_iff.2 fun tracked => apart _ ⟨tracked, excluded⟩
  · exact (shut _ (.inr (Operations.carryOut _ _))).2.1

end Roster
