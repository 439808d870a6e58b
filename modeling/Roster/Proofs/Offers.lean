import Mathlib.Algebra.Order.BigOperators.Group.List
import Mathlib.Algebra.Order.Ring.Nat
import Roster.Proofs.Rearranged

/-!
# Proofs.Offers — the candidates, read off the answer itself

* `Record.Spans`, `Record.breadth`: the ports on which a record is announced, by their offset from its
  own. `expandPorts_eq`: the expanded answer runs through them, record by record.
* `Config.group?`, `Config.FailsOpen`: the group that the answer is narrowed to, or why to none.
  `find?_expandPorts`: more ports do not change it.
* `Config.Offers`: a record of the answer offers a key on one of its ports.
* `find?_ladder_eq_some`: the first of all that pass a test, by place and then by offset.
* `candidates_are_first_offers`: the candidates are the keys that are offered and not excluded, each
  with the first record that offers it.
-/

namespace Roster

/-! ## Ports -/

namespace Record

/-- The record is announced on the port that lies this far behind its own; without a port, only as it
is. -/
def Spans (range : UInt16) (r : Record) (offset : Nat) : Prop :=
  if r.port = 0 then offset = 0 else offset ≤ range.toNat ∧ r.port.toNat + offset ≤ 65535

/-- The number of ports on which the record is announced. -/
def breadth (range : UInt16) (r : Record) : Nat :=
  if r.port = 0 then 1 else min (range.toNat + 1) (65536 - r.port.toNat)

/-- The record on the port that lies this far behind its own. -/
def onPort (r : Record) (offset : Nat) : Record :=
  { r with port := (r.port.toNat + offset).toUInt16 }

variable {range : UInt16} {r : Record}

theorem spans_iff {offset : Nat} : r.Spans range offset ↔ offset < r.breadth range := by
  unfold Spans breadth
  split <;> omega

@[simp] theorem onPort_zero (r : Record) : r.onPort 0 = r := by
  have own : (r.port.toNat + 0).toUInt16 = r.port := UInt16.ofNat_toNat
  rw [onPort, own]

/-- The port is no part of the address. -/
theorem matchesAddress_onPort (r : Record) (offset : Nat) (own : Address) :
    (r.onPort offset).matchesAddress own = r.matchesAddress own := rfl

theorem breadth_pos (range : UInt16) (r : Record) : 0 < r.breadth range := by
  have := r.port.toNat_lt
  unfold breadth
  split <;> omega

/-- Of the ports that follow, those below 65536 are ports. -/
theorem filterMap_shift? (r : Record) (n : Nat) : (List.range n).filterMap r.shift? =
    (List.range (min n (65536 - r.port.toNat))).map r.onPort := by
  have size : UInt16.size = 65536 := rfl
  induction n with
  | zero => rw [Nat.zero_min]; rfl
  | succ n ih =>
    rw [List.range_succ, List.filterMap_append, ih]
    by_cases fits : r.port.toNat + n < 65536
    · have shifted : r.shift? n = some (r.onPort n) := if_pos fits
      rw [show min n (65536 - r.port.toNat) = n by omega,
        show min (n + 1) (65536 - r.port.toNat) = n + 1 by omega, List.range_succ, List.map_append]
      simp [shifted]
    · have shifted : r.shift? n = none := if_neg fits
      rw [show min (n + 1) (65536 - r.port.toNat) = min n (65536 - r.port.toNat) by omega]
      simp [shifted]

theorem expand_eq (range : UInt16) (r : Record) :
    r.expand range = (List.range (r.breadth range)).map r.onPort := by
  unfold expand breadth
  split
  · rw [List.range_one, List.map_singleton, onPort_zero]
  · exact filterMap_shift? r _

end Record

theorem expandPorts_eq (range : UInt16) (records : List Record) : expandPorts range records =
    records.flatMap fun r => (List.range (r.breadth range)).map r.onPort := by
  unfold expandPorts
  split
  · next absent =>
    have alone : ∀ r : Record, (List.range (r.breadth range)).map r.onPort = [r] := fun r => by
      have := r.port.toNat_lt
      have one : r.breadth range = 1 := by
        unfold Record.breadth
        rw [absent, show (0 : UInt16).toNat = 0 from rfl]
        split <;> omega
      rw [one, List.range_one, List.map_singleton, Record.onPort_zero]
    rw [funext alone, List.flatMap_singleton']
  · rw [← funext (Record.expand_eq range)]

section Expanded

variable {test : Record → Bool} (blind : ∀ (r : Record) (offset : Nat), test (r.onPort offset) = test r)
include blind

/-- A test that does not look at the port finds the same record first. -/
theorem find?_expandPorts (range : UInt16) (records : List Record) :
    (expandPorts range records).find? test = records.find? test := by
  rw [expandPorts_eq]
  induction records with
  | nil => rfl
  | cons r rest ih =>
    obtain ⟨more, hmore⟩ := Nat.exists_eq_succ_of_ne_zero (Nat.ne_of_gt (r.breadth_pos range))
    rw [List.flatMap_cons, List.find?_append, ih, List.find?_cons]
    cases passes : test r with
    | true =>
      rw [hmore, List.range_succ_eq_map, List.map_cons, Record.onPort_zero, List.find?_cons, passes]
      rfl
    | false =>
      have none : ((List.range (r.breadth range)).map r.onPort).find? test = none := by
        refine List.find?_eq_none.2 fun s hs => ?_
        obtain ⟨offset, -, rfl⟩ := List.mem_map.1 hs
        rw [blind, passes]
        decide
      rw [none]
      rfl

/-- Of the records that pass, each counts once for every port. -/
theorem length_filter_expandPorts (range : UInt16) (records : List Record) :
    ((expandPorts range records).filter test).length =
      ((records.filter test).map (·.breadth range)).sum := by
  rw [expandPorts_eq]
  induction records with
  | nil => rfl
  | cons r rest ih =>
    have same : test ∘ r.onPort = fun _ => test r := funext (blind r)
    rw [List.flatMap_cons, List.filter_append, List.length_append, ih, List.filter_map, same,
      List.filter_cons]
    cases test r <;> simp

end Expanded

/-! ## The local group -/

namespace Config

/-- The group that an answer is narrowed to: that of the first record at the local address, if groups
are to be kept apart. -/
def group? (c : Config) (answer : List Record) : Option String :=
  if c.splitDuringRollingUpdate then
    c.localAddress.bind fun own => (answer.find? (·.matchesAddress own)).bind (·.group)
  else none

/-- Why groups cannot be kept apart in an answer. -/
inductive FailsOpen (c : Config) (answer : List Record) : GroupUnknown → Prop
  | noAddress : c.localAddress = none → FailsOpen c answer .noAddress
  | notListed (own : Address) : c.localAddress = some own →
    (∀ r ∈ answer, r.matchesAddress own = false) → FailsOpen c answer .notListed
  | noGroup (own : Address) (r : Record) : c.localAddress = some own →
    answer.find? (·.matchesAddress own) = some r → r.group = none → FailsOpen c answer .noGroup

variable {c : Config} {answer : List Record}

theorem localGroup_eq_ok_iff {g : String} (split : c.splitDuringRollingUpdate = true) :
    (Admission.ofConfig c).partitioner.localGroup answer = .ok g ↔ c.group? answer = some g := by
  unfold Partitioner.localGroup group?
  rw [if_pos split]
  simp only [Admission.ofConfig]
  cases c.localAddress with
  | none => simp
  | some own =>
    cases hr : answer.find? (·.matchesAddress own) with
    | none => simp [hr]
    | some r => cases hg : r.group <;> simp [hr, hg]

theorem localGroup_eq_error_iff {reason : GroupUnknown} :
    (Admission.ofConfig c).partitioner.localGroup answer = .error reason ↔
      c.FailsOpen answer reason := by
  unfold Partitioner.localGroup
  simp only [Admission.ofConfig]
  constructor
  · intro h
    cases hl : c.localAddress with
    | none =>
      rw [hl] at h
      cases h
      exact .noAddress hl
    | some own =>
      rw [hl] at h
      cases hr : answer.find? (·.matchesAddress own) with
      | none =>
        simp only [hr] at h
        cases h
        exact .notListed own hl fun r hr' => by simpa using List.find?_eq_none.1 hr r hr'
      | some r =>
        cases hg : r.group with
        | none =>
          simp only [hr, hg] at h
          cases h
          exact .noGroup own r hl hr hg
        | some g =>
          simp only [hr, hg] at h
          cases h
  · rintro (hl | ⟨own, hl, absent⟩ | ⟨own, r, hl, hr, hg⟩)
    · rw [hl]
    · have none : answer.find? (·.matchesAddress own) = none :=
        List.find?_eq_none.2 fun r hr => by simp [absent r hr]
      simp only [hl, none]
    · simp only [hl, hr, hg]

/-- What is kept of an answer: the group it is narrowed to, or everything. -/
theorem partition_kept : ((Admission.ofConfig c).partitioner.partition answer).1 =
    answer.filter fun r => (c.group? answer).all fun g => r.group == some g := by
  unfold Partitioner.partition
  cases split : c.splitDuringRollingUpdate with
  | false =>
    have off : (Admission.ofConfig c).partitioner.enabled = false := split
    simp [off, group?, split]
  | true =>
    have on : (Admission.ofConfig c).partitioner.enabled = true := split
    rw [on]
    cases hl : (Admission.ofConfig c).partitioner.localGroup answer with
    | ok g => simp [(localGroup_eq_ok_iff split).1 hl]
    | error reason =>
      have none : c.group? answer = none := by
        refine Option.eq_none_iff_forall_ne_some.2 fun g hg => ?_
        rw [(localGroup_eq_ok_iff split).2 hg] at hl
        cases hl
      simp [none]

end Config

/-! ## Places and offsets -/

section Ladder

variable {α β : Type}

/-- Where each item of a list stands for a row of values: the value at this place and offset passes a
test, and none does at a place before or, in its own row, at a lower offset. -/
structure FirstAt (items : List α) (width : α → Nat) (value : α → Nat → β) (test : β → Bool)
    (place offset : Nat) (a : α) : Prop where
  listed : items[place]? = some a
  inside : offset < width a
  passes : test (value a offset) = true
  least : ∀ (place' offset' : Nat) (a' : α), items[place']? = some a' → offset' < width a' →
    test (value a' offset') = true → place < place' ∨ place = place' ∧ offset ≤ offset'

variable {items : List α} {width : α → Nat} {value : α → Nat → β} {test : β → Bool}

theorem FirstAt.unique {place offset place' offset' : Nat} {a a' : α}
    (h : FirstAt items width value test place offset a)
    (h' : FirstAt items width value test place' offset' a') :
    place = place' ∧ offset = offset' ∧ a = a' := by
  have one := h.least place' offset' a' h'.listed h'.inside h'.passes
  have other := h'.least place offset a h.listed h.inside h.passes
  obtain ⟨rfl, rfl⟩ : place = place' ∧ offset = offset' := by omega
  exact ⟨rfl, rfl, Option.some.inj (h.listed.symm.trans h'.listed)⟩

theorem firstAt_of_find? {b : β}
    (h : (items.flatMap fun a => (List.range (width a)).map (value a)).find? test = some b) :
    ∃ place offset a, FirstAt items width value test place offset a ∧ b = value a offset := by
  rw [List.find?_flatMap, List.findSome?_eq_some_iff] at h
  obtain ⟨before, a, after, rfl, here, skipped⟩ := h
  rw [List.find?_map, Option.map_eq_some_iff] at here
  obtain ⟨offset, here, rfl⟩ := here
  obtain ⟨passes, inside, lower⟩ := List.find?_range_eq_some.1 here
  refine ⟨before.length, offset, a, ⟨by simp, List.mem_range.1 inside, passes, ?_⟩, rfl⟩
  intro place' offset' a' ha' hoffset' passes'
  rcases Nat.lt_trichotomy place' before.length with earlier | rfl | later
  · rw [List.getElem?_append_left earlier] at ha'
    exact absurd passes' (List.find?_eq_none.1 (skipped a' (List.mem_of_getElem? ha')) _
      (List.mem_map_of_mem (List.mem_range.2 hoffset')))
  · obtain rfl : a = a' := by simpa using ha'
    refine .inr ⟨rfl, Nat.not_lt.1 fun below => ?_⟩
    have fails := lower offset' below
    rw [Function.comp_apply, passes'] at fails
    cases fails
  · exact .inl later

/-- The first value that passes is the one at the least place and, there, at the least offset. -/
theorem find?_ladder_eq_some {b : β} :
    (items.flatMap fun a => (List.range (width a)).map (value a)).find? test = some b ↔
      ∃ place offset a, FirstAt items width value test place offset a ∧ b = value a offset := by
  refine ⟨firstAt_of_find?, ?_⟩
  rintro ⟨place, offset, a, first, rfl⟩
  cases found : (items.flatMap fun a => (List.range (width a)).map (value a)).find? test with
  | none =>
    have among : value a offset ∈ items.flatMap fun a => (List.range (width a)).map (value a) :=
      List.mem_flatMap.2 ⟨a, List.mem_of_getElem? first.listed,
        List.mem_map_of_mem (List.mem_range.2 first.inside)⟩
    exact absurd first.passes (List.find?_eq_none.1 found _ among)
  | some b =>
    obtain ⟨place', offset', a', first', rfl⟩ := firstAt_of_find? found
    obtain ⟨rfl, rfl, rfl⟩ := first.unique first'
    rfl

theorem find?_ladder_isSome :
    ((items.flatMap fun a => (List.range (width a)).map (value a)).find? test).isSome = true ↔
      ∃ (place offset : Nat) (a : α), items[place]? = some a ∧ offset < width a ∧
        test (value a offset) = true := by
  rw [List.find?_isSome]
  constructor
  · rintro ⟨b, hb, passes⟩
    obtain ⟨a, ha, hb⟩ := List.mem_flatMap.1 hb
    obtain ⟨offset, inside, rfl⟩ := List.mem_map.1 hb
    obtain ⟨place, listed⟩ := List.mem_iff_getElem?.1 ha
    exact ⟨place, offset, a, listed, List.mem_range.1 inside, passes⟩
  · rintro ⟨place, offset, a, listed, inside, passes⟩
    exact ⟨_, List.mem_flatMap.2 ⟨a, List.mem_of_getElem? listed,
      List.mem_map_of_mem (List.mem_range.2 inside)⟩, passes⟩

end Ladder

/-! ## Offers -/

namespace Config

/-- The record at a place of the answer, on the port that lies so far behind its own, has the key, and
it may be tracked: it is not the local node, it is ready if that is asked for, and it is in the group
that the answer is narrowed to. -/
structure Offers (c : Config) (answer : List Record) (key : PeerKey) (place offset : Nat) (r : Record) :
    Prop where
  listed : answer[place]? = some r
  spans : r.Spans c.portRange offset
  named : PeerKey.ofEndpoint r.address (r.port.toNat + offset).toUInt16 = key
  foreign : ∀ own, c.localAddress = some own → r.matchesAddress own = false
  ready : c.requireReady = true → r.ready = true
  grouped : ∀ g, c.group? answer = some g → r.group = some g

/-- The record passes all filters and has the key. -/
def welcomes (c : Config) (isExcluded : PeerKey → Bool) (answer : List Record) (key : PeerKey)
    (r : Record) : Bool :=
  (((c.group? answer).all fun g => r.group == some g) && (Admission.ofConfig c).admits r &&
    !isExcluded r.key) && r.key == key

variable {c : Config} {isExcluded : PeerKey → Bool} {answer : List Record} {key : PeerKey}

theorem group?_expandPorts (c : Config) (range : UInt16) (answer : List Record) :
    c.group? (expandPorts range answer) = c.group? answer := by
  unfold group?
  split
  · refine Option.bind_congr fun own _ => ?_
    rw [find?_expandPorts fun r offset => r.matchesAddress_onPort offset own]
  · rfl

/-- A candidate is the first record of the expanded answer that passes and has its key. -/
theorem find?_candidates (c : Config) (isExcluded : PeerKey → Bool) (answer : List Record)
    (key : PeerKey) : ((Admission.ofConfig c).candidates isExcluded answer).1.find? key =
      (expandPorts c.portRange answer).find? (c.welcomes isExcluded answer key) := by
  rw [Admission.candidates_eq, find?_byKey, Admission.passing, partition_kept, group?_expandPorts,
    List.filter_filter, List.filter_filter, List.find?_filter]
  refine congrArg (List.find? · _) (funext fun r => ?_)
  rw [welcomes, Bool.eq_iff_iff]
  simp only [decide_eq_true_eq, Bool.and_eq_true]
  tauto

theorem welcomes_iff {place offset : Nat} {r : Record} (listed : answer[place]? = some r) :
    offset < r.breadth c.portRange ∧ c.welcomes isExcluded answer key (r.onPort offset) = true ↔
      isExcluded key = false ∧ c.Offers answer key place offset r := by
  have grouped : ((c.group? answer).all fun g => r.group == some g) = true ↔
      ∀ g, c.group? answer = some g → r.group = some g := by
    cases c.group? answer <;> simp
  have admits : (Admission.ofConfig c).admits (r.onPort offset) = true ↔
      (∀ own, c.localAddress = some own → r.matchesAddress own = false) ∧
        (c.requireReady = true → r.ready = true) := by
    have local_ : (Admission.ofConfig c).localAddress = c.localAddress := rfl
    rw [Admission.admits, Bool.and_eq_true, local_]
    refine and_congr ?_ ?_
    · cases c.localAddress <;> simp [Record.matchesAddress_onPort]
    · change (!c.requireReady || r.ready) = true ↔ _
      cases c.requireReady <;> simp
  rw [welcomes, ← Record.spans_iff]
  simp only [Bool.and_eq_true, Bool.not_eq_true', beq_iff_eq, admits]
  constructor
  · rintro ⟨spans, ⟨⟨group, local_, ready⟩, spared⟩, named⟩
    exact ⟨named ▸ spared, listed, spans, named, local_, ready, grouped.1 group⟩
  · rintro ⟨spared, offers⟩
    exact ⟨offers.spans, ⟨⟨grouped.2 offers.grouped, offers.foreign, offers.ready⟩,
      (congrArg isExcluded offers.named).trans spared⟩, offers.named⟩

theorem firstAt_iff {place offset : Nat} {r : Record} :
    FirstAt answer (·.breadth c.portRange) Record.onPort (c.welcomes isExcluded answer key)
        place offset r ↔
      isExcluded key = false ∧ c.Offers answer key place offset r ∧
        ∀ place' offset' r', c.Offers answer key place' offset' r' →
          place < place' ∨ place = place' ∧ offset ≤ offset' := by
  constructor
  · rintro ⟨listed, inside, passes, least⟩
    obtain ⟨spared, offers⟩ := (welcomes_iff listed).1 ⟨inside, passes⟩
    refine ⟨spared, offers, fun place' offset' r' offers' => ?_⟩
    obtain ⟨inside', passes'⟩ := (welcomes_iff offers'.listed).2 ⟨spared, offers'⟩
    exact least place' offset' r' offers'.listed inside' passes'
  · rintro ⟨spared, offers, least⟩
    obtain ⟨inside, passes⟩ := (welcomes_iff offers.listed).2 ⟨spared, offers⟩
    refine ⟨offers.listed, inside, passes, fun place' offset' r' listed' inside' passes' => ?_⟩
    exact least place' offset' r' ((welcomes_iff listed').1 ⟨inside', passes'⟩).2

/-! ## What is reported -/

theorem localGroup_expandPorts (p : Partitioner) (range : UInt16) (answer : List Record) :
    p.localGroup (expandPorts range answer) = p.localGroup answer := by
  unfold Partitioner.localGroup
  split
  · rfl
  · next own _ => rw [find?_expandPorts fun r offset => r.matchesAddress_onPort offset own]

theorem outcome_of_group {group : String} (split : c.splitDuringRollingUpdate = true)
    (known : c.group? answer = some group) :
    ((Admission.ofConfig c).partitioner.partition (expandPorts c.portRange answer)).2 =
      .partitioned group
        ((answer.filter (·.group == some group)).map (·.breadth c.portRange)).sum
        ((answer.filter (·.group != some group)).map (·.breadth c.portRange)).sum := by
  have on : (Admission.ofConfig c).partitioner.enabled = true := split
  have found : (Admission.ofConfig c).partitioner.localGroup (expandPorts c.portRange answer) =
      .ok group := by
    rw [localGroup_expandPorts]
    exact (localGroup_eq_ok_iff split).2 known
  have kept : ((expandPorts c.portRange answer).filter (·.group == some group)).length =
      ((answer.filter (·.group == some group)).map (·.breadth c.portRange)).sum :=
    length_filter_expandPorts (fun _ _ => rfl) c.portRange answer
  have dropped : ((expandPorts c.portRange answer).filter (·.group != some group)).length =
      ((answer.filter (·.group != some group)).map (·.breadth c.portRange)).sum :=
    length_filter_expandPorts (fun _ _ => rfl) c.portRange answer
  have total := List.length_eq_length_filter_add (l := expandPorts c.portRange answer)
    (·.group == some group)
  have rest : (expandPorts c.portRange answer).length -
      ((expandPorts c.portRange answer).filter (·.group == some group)).length =
        ((expandPorts c.portRange answer).filter (·.group != some group)).length :=
    Nat.sub_eq_of_eq_add' total
  unfold Partitioner.partition
  simp only [on, found]
  rw [rest, kept, dropped]
  rfl

theorem outcome_of_failsOpen {reason : GroupUnknown} (split : c.splitDuringRollingUpdate = true)
    (fails : c.FailsOpen answer reason) :
    ((Admission.ofConfig c).partitioner.partition (expandPorts c.portRange answer)).2 =
      .unidentified reason := by
  have on : (Admission.ofConfig c).partitioner.enabled = true := split
  have unknown : (Admission.ofConfig c).partitioner.localGroup (expandPorts c.portRange answer) =
      .error reason := by
    rw [localGroup_expandPorts]
    exact localGroup_eq_error_iff.2 fails
  unfold Partitioner.partition
  simp only [on, unknown]
  rfl

theorem outcome_of_whole (whole : c.splitDuringRollingUpdate = false) :
    ((Admission.ofConfig c).partitioner.partition (expandPorts c.portRange answer)).2 = .disabled := by
  have off : (Admission.ofConfig c).partitioner.enabled = false := whole
  unfold Partitioner.partition
  simp only [off]
  rfl

/-- Groups are kept apart, or it is known why they are not. -/
theorem group_or_failsOpen (c : Config) (answer : List Record) : c.splitDuringRollingUpdate = false ∨
    c.splitDuringRollingUpdate = true ∧
      ((∃ group, c.group? answer = some group) ∨ ∃ reason, c.FailsOpen answer reason) := by
  cases split : c.splitDuringRollingUpdate with
  | false => exact .inl rfl
  | true =>
    refine .inr ⟨rfl, ?_⟩
    cases h : (Admission.ofConfig c).partitioner.localGroup answer with
    | ok group => exact .inl ⟨group, (localGroup_eq_ok_iff split).1 h⟩
    | error reason => exact .inr ⟨reason, localGroup_eq_error_iff.1 h⟩

theorem split_of_group? {group : String} (h : c.group? answer = some group) :
    c.splitDuringRollingUpdate = true := by
  unfold group? at h
  split at h
  · assumption
  · cases h

/-- A partition is reported if and only if the group is known: with the number of ports in it, and the
number of the others. -/
theorem outcome_partitioned_iff {group : String} {kept dropped : Nat} :
    ((Admission.ofConfig c).partitioner.partition (expandPorts c.portRange answer)).2 =
        .partitioned group kept dropped ↔ c.group? answer = some group ∧
      kept = ((answer.filter (·.group == some group)).map (·.breadth c.portRange)).sum ∧
      dropped = ((answer.filter (·.group != some group)).map (·.breadth c.portRange)).sum := by
  constructor
  · intro h
    rcases group_or_failsOpen c answer with whole | ⟨split, ⟨g, known⟩ | ⟨reason, fails⟩⟩
    · rw [outcome_of_whole whole] at h
      cases h
    · rw [outcome_of_group split known] at h
      cases h
      exact ⟨known, rfl, rfl⟩
    · rw [outcome_of_failsOpen split fails] at h
      cases h
  · rintro ⟨known, rfl, rfl⟩
    exact outcome_of_group (split_of_group? known) known

theorem outcome_unidentified_iff {reason : GroupUnknown} :
    ((Admission.ofConfig c).partitioner.partition (expandPorts c.portRange answer)).2 =
      .unidentified reason ↔ c.splitDuringRollingUpdate = true ∧ c.FailsOpen answer reason := by
  constructor
  · intro h
    rcases group_or_failsOpen c answer with whole | ⟨split, ⟨g, known⟩ | ⟨other, fails⟩⟩
    · rw [outcome_of_whole whole] at h
      cases h
    · rw [outcome_of_group split known] at h
      cases h
    · rw [outcome_of_failsOpen split fails] at h
      cases h
      exact ⟨split, fails⟩
  · rintro ⟨split, fails⟩
    exact outcome_of_failsOpen split fails

theorem outcome_disabled_iff :
    ((Admission.ofConfig c).partitioner.partition (expandPorts c.portRange answer)).2 = .disabled ↔
      c.splitDuringRollingUpdate = false := by
  refine ⟨fun h => ?_, outcome_of_whole⟩
  rcases group_or_failsOpen c answer with whole | ⟨split, ⟨g, known⟩ | ⟨reason, fails⟩⟩
  · exact whole
  · rw [outcome_of_group split known] at h
    cases h
  · rw [outcome_of_failsOpen split fails] at h
    cases h

/-- **The candidates are the keys that the answer offers.** A key is a candidate if and only if it is not
excluded and some record of the answer, on one of its ports, offers it: with an address that is not the
local one, ready if that is asked for, and in the local group if groups are kept apart and the first
record at the local address has one. The candidate is the first record that does, by its place in the
answer and then by the port, with nothing but the port changed. A partition is reported with that group
and with the number of ports on which the records in it, and the others, are announced; where the group
is unknown the report says why, and nobody is dropped for it. -/
theorem candidates_are_first_offers (c : Config) (isExcluded : PeerKey → Bool) (answer : List Record) :
    let found := (Admission.ofConfig c).candidates isExcluded answer
    (∀ key, found.1.contains key = true ↔
      isExcluded key = false ∧ ∃ place offset r, c.Offers answer key place offset r) ∧
    (∀ key record, found.1.find? key = some record ↔
      isExcluded key = false ∧ ∃ place offset r, c.Offers answer key place offset r ∧
        (∀ place' offset' r', c.Offers answer key place' offset' r' →
          place < place' ∨ place = place' ∧ offset ≤ offset') ∧
        record = { r with port := (r.port.toNat + offset).toUInt16 }) ∧
    (∀ (r : Record) offset, r.Spans c.portRange offset ↔ offset < r.breadth c.portRange) ∧
    (∀ group kept dropped, found.2 = .partitioned group kept dropped ↔ c.group? answer = some group ∧
      kept = ((answer.filter (·.group == some group)).map (·.breadth c.portRange)).sum ∧
      dropped = ((answer.filter (·.group != some group)).map (·.breadth c.portRange)).sum) ∧
    (∀ reason, found.2 = .unidentified reason ↔
      c.splitDuringRollingUpdate = true ∧ c.FailsOpen answer reason) ∧
    (found.2 = .disabled ↔ c.splitDuringRollingUpdate = false) := by
  intro found
  have outcome : found.2 =
      ((Admission.ofConfig c).partitioner.partition (expandPorts c.portRange answer)).2 := by
    rw [show found = _ from Admission.candidates_eq _ _ _]
    rfl
  refine ⟨fun key => ?_, fun key record => ?_, fun _ _ => Record.spans_iff, ?_⟩
  · rw [KeyMap.contains, find?_candidates, expandPorts_eq, find?_ladder_isSome]
    constructor
    · rintro ⟨place, offset, r, listed, inside, passes⟩
      obtain ⟨spared, offers⟩ := (welcomes_iff listed).1 ⟨inside, passes⟩
      exact ⟨spared, place, offset, r, offers⟩
    · rintro ⟨spared, place, offset, r, offers⟩
      exact ⟨place, offset, r, offers.listed, (welcomes_iff offers.listed).2 ⟨spared, offers⟩⟩
  · rw [find?_candidates, expandPorts_eq, find?_ladder_eq_some]
    constructor
    · rintro ⟨place, offset, r, first, rfl⟩
      obtain ⟨spared, offers, least⟩ := firstAt_iff.1 first
      exact ⟨spared, place, offset, r, offers, least, rfl⟩
    · rintro ⟨spared, place, offset, r, offers, least, rfl⟩
      exact ⟨place, offset, r, firstAt_iff.2 ⟨spared, offers, least⟩, rfl⟩
  · rw [outcome]
    exact ⟨fun _ _ _ => outcome_partitioned_iff, fun _ => outcome_unidentified_iff, outcome_disabled_iff⟩

/-- The key "b:7801" goes to the third record, on its second port: the first record is in another group,
and the last one comes later. After the last port of all there is none. -/
example :
    let config := ((Config.standard.set (.portRange 1)).set (.splitDuringRollingUpdate true)).set
      (.localAddress (.v4 10 0 0 1))
    let answer : List Record := [⟨"b", 7801, some "old", true⟩, ⟨"10.0.0.1", 65535, some "new", true⟩,
      ⟨"b", 7800, some "new", false⟩, ⟨"b", 7801, some "new", true⟩]
    let found := (Admission.ofConfig config).candidates (fun _ => false) answer
    found.1.find? ⟨"b:7801"⟩ = some ⟨"b", 7801, some "new", false⟩ ∧
      found.2 = .partitioned "new" 5 2 := by decide +kernel

end Config

end Roster
