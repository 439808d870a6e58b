import Roster.Proofs.Orderly
import Roster.Proofs.Outline

/-!
# Proofs.Rearranged — the order in which a directory lists its records

* `expandPorts_perm`, `partition_perm`: what becomes of a rearranged answer up to the candidates.
* `Admission.passing`: the records that pass. `byKey`: the first record of each key.
* `byKey_outline`: the keys of the candidates do not depend on the order. `byKey_perm`: nor do the
  candidates, if no two records that pass have a key in common.
* `resolve_outline`: a cycle does not depend on more of its candidates than their keys, but for the
  records.
* `listing_order_is_irrelevant`: so it does not depend on the order of the answer.
-/

namespace Roster

open Members

/-- Where all that pass a test look alike, it does not matter which of them comes first. -/
theorem find?_map_perm {α β : Type} {l l' : List α} (perm : l.Perm l') {p : α → Bool} {f : α → β}
    (same : ∀ a ∈ l, ∀ b ∈ l, p a = true → p b = true → f a = f b) :
    (l.find? p).map f = (l'.find? p).map f := by
  cases h : l.find? p with
  | none =>
    have none : l'.find? p = none :=
      List.find?_eq_none.2 fun a ha => List.find?_eq_none.1 h a (perm.mem_iff.2 ha)
    rw [none]
  | some a =>
    have ha := List.mem_of_find?_eq_some h
    have hp := List.find?_some h
    obtain ⟨b, hb⟩ := Option.isSome_iff_exists.1 (show (l'.find? p).isSome = true from
      List.find?_isSome.2 ⟨a, perm.mem_iff.1 ha, hp⟩)
    rw [hb, Option.map_some, Option.map_some,
      same a ha b (perm.mem_iff.2 (List.mem_of_find?_eq_some hb)) hp (List.find?_some hb)]

/-! ## Ports -/

/-- A record on another port is at the same address and in the same group. -/
theorem Record.of_mem_expand {range : UInt16} {r s : Record} (h : s ∈ r.expand range) :
    s.address = r.address ∧ s.group = r.group := by
  unfold expand at h
  split at h
  · obtain rfl := List.mem_singleton.1 h
    exact ⟨rfl, rfl⟩
  · obtain ⟨offset, -, shifted⟩ := List.mem_filterMap.1 h
    unfold shift? at shifted
    dsimp only at shifted
    split at shifted
    · obtain rfl := Option.some.inj shifted
      exact ⟨rfl, rfl⟩
    · cases shifted

theorem of_mem_expandPorts {range : UInt16} {records : List Record} {s : Record}
    (h : s ∈ expandPorts range records) : ∃ r ∈ records, s.address = r.address ∧ s.group = r.group := by
  unfold expandPorts at h
  split at h
  · exact ⟨s, h, rfl, rfl⟩
  · obtain ⟨r, hr, hs⟩ := List.mem_flatMap.1 h
    exact ⟨r, hr, Record.of_mem_expand hs⟩

theorem expandPorts_perm {records records' : List Record} (perm : records.Perm records')
    (range : UInt16) : (expandPorts range records).Perm (expandPorts range records') := by
  unfold expandPorts
  split
  · exact perm
  · exact perm.flatMap_right _

/-! ## The local group -/

/-- The records at the local address are all in the same group, if that matters. -/
def Partitioner.Uniform (p : Partitioner) (records : List Record) : Prop :=
  p.enabled = true → ∀ own, p.localAddress = some own → ∀ r ∈ records, ∀ s ∈ records,
    r.matchesAddress own = true → s.matchesAddress own = true → r.group = s.group

section Partition

variable {p : Partitioner} {records records' : List Record}

theorem Partitioner.Uniform.expandPorts (h : p.Uniform records) (range : UInt16) :
    p.Uniform (expandPorts range records) := by
  have moves : ∀ {r s : Record} {own : Address}, s.address = r.address →
      s.matchesAddress own = r.matchesAddress own := fun {r s own} same => by
    unfold Record.matchesAddress
    rw [same]
  intro enabled own local_ r hr s hs hr' hs'
  obtain ⟨r₀, hr₀, address, group⟩ := of_mem_expandPorts hr
  obtain ⟨s₀, hs₀, address', group'⟩ := of_mem_expandPorts hs
  rw [group, group']
  exact h enabled own local_ r₀ hr₀ s₀ hs₀ (moves address ▸ hr') (moves address' ▸ hs')

/-- The local group is that of any record at the local address. -/
theorem localGroup_perm (perm : records.Perm records') (uniform : p.Uniform records)
    (enabled : p.enabled = true) : p.localGroup records = p.localGroup records' := by
  unfold Partitioner.localGroup
  cases hl : p.localAddress with
  | none => rfl
  | some own =>
    have same : (records.find? (·.matchesAddress own)).map (·.group) =
        (records'.find? (·.matchesAddress own)).map (·.group) :=
      find?_map_perm perm fun r hr s hs => uniform enabled own hl r hr s hs
    dsimp only
    generalize records.find? (·.matchesAddress own) = first at same
    generalize records'.find? (·.matchesAddress own) = first' at same
    cases first <;> cases first' <;> simp_all

theorem partition_perm (perm : records.Perm records') (uniform : p.Uniform records) :
    (p.partition records).1.Perm (p.partition records').1 ∧
      (p.partition records).2 = (p.partition records').2 := by
  unfold Partitioner.partition
  split
  · exact ⟨perm, rfl⟩
  · next enabled =>
    rw [localGroup_perm perm uniform (by simpa using enabled)]
    split
    · exact ⟨perm, rfl⟩
    · next group _ =>
      have kept := perm.filter (·.group == some group)
      refine ⟨kept, ?_⟩
      dsimp only
      rw [kept.length_eq, perm.length_eq]

end Partition

/-! ## The first record of each key -/

theorem KeyMap.find?_ofList {α : Type} (l : List (PeerKey × α)) (k : PeerKey) :
    (KeyMap.ofList l).find? k = (l.find? (·.1 == k)).map (·.2) := by
  have first : ∀ (l : List (PeerKey × α)) (m : KeyMap α),
      (l.foldl (fun m e => m.insertNew e.1 e.2) m).find? k =
        (m.find? k).or ((l.find? (·.1 == k)).map (·.2)) := by
    intro l
    induction l with
    | nil => exact fun m => (Option.or_none).symm
    | cons e rest ih =>
      intro m
      rw [List.foldl_cons, ih, KeyMap.find?_insertNew, List.find?_cons]
      by_cases hk : k = e.1
      · subst hk
        cases m.find? e.1 <;> simp
      · have other : (e.1 == k) = false := by simpa using Ne.symm hk
        rw [if_neg hk, other]
  exact first l .empty

/-- The first record of each key. -/
def byKey (records : List Record) : KeyMap Record := .ofList (records.map fun r => (r.key, r))

theorem find?_byKey (records : List Record) (k : PeerKey) :
    (byKey records).find? k = records.find? (·.key == k) := by
  rw [byKey, KeyMap.find?_ofList, List.find?_map, Option.map_map]
  exact Option.map_id'

section ByKey

variable {records records' : List Record} (perm : records.Perm records')
include perm

/-- The keys do not depend on the order. -/
theorem byKey_outline : (byKey records).map Record.outline = (byKey records').map Record.outline := by
  refine KeyMap.ext_find? fun k => ?_
  rw [KeyMap.find?_map, KeyMap.find?_map, find?_byKey, find?_byKey]
  refine find?_map_perm perm fun r _ s _ hr hs => ?_
  rw [Record.outline, Record.outline, eq_of_beq hr, eq_of_beq hs]

theorem byKey_perm (distinct : ∀ r ∈ records, ∀ s ∈ records, r.key = s.key → r = s) :
    byKey records = byKey records' := by
  refine KeyMap.ext_find? fun k => ?_
  have same : (records.find? (·.key == k)).map id = (records'.find? (·.key == k)).map id :=
    find?_map_perm perm fun r hr s hs hr' hs' =>
      distinct r hr s hs ((eq_of_beq hr').trans (eq_of_beq hs').symm)
  rwa [Option.map_id_apply, Option.map_id_apply, ← find?_byKey, ← find?_byKey] at same

end ByKey

/-! ## Candidates -/

/-- The records that pass: on every port, in the local group, not that of the local node, ready if that
is asked for, not excluded. -/
def Admission.passing (a : Admission) (isExcluded : PeerKey → Bool) (answer : List Record) :
    List Record :=
  ((a.partitioner.partition (expandPorts a.portRange answer)).1.filter a.admits).filter
    fun r => !isExcluded r.key

theorem Admission.candidates_eq (a : Admission) (isExcluded : PeerKey → Bool) (answer : List Record) :
    a.candidates isExcluded answer = (byKey (a.passing isExcluded answer),
      (a.partitioner.partition (expandPorts a.portRange answer)).2) := by
  unfold candidates passing byKey
  dsimp only
  rw [List.filter_map]
  rfl

theorem Admission.passing_perm (a : Admission) (isExcluded : PeerKey → Bool)
    {answer answer' : List Record} (perm : answer.Perm answer') (uniform : a.partitioner.Uniform answer) :
    (a.passing isExcluded answer).Perm (a.passing isExcluded answer') ∧
      (a.partitioner.partition (expandPorts a.portRange answer)).2 =
        (a.partitioner.partition (expandPorts a.portRange answer')).2 := by
  obtain ⟨kept, outcome⟩ := partition_perm (expandPorts_perm perm a.portRange)
    (uniform.expandPorts a.portRange)
  exact ⟨(kept.filter _).filter _, outcome⟩

/-! ## Cycles -/

namespace Engine

/-- The engine with every record among the members reduced to its key. -/
def outline (e : Engine) : Engine := { e with members := e.members.outline }

theorem outline_counted (e : Engine) (members : Members) :
    (e.counted members).outline = e.counted members.outline := by
  have size : (members.outline.count Tally.cycle).size = (members.count Tally.cycle).size :=
    members.size_outline
  unfold counted
  rw [size]
  rfl

theorem briefed_congr {e : Engine} {answer answer' : List Record}
    (outcome : (e.found answer).2 = (e.found answer').2) : e.briefed answer = e.briefed answer' := by
  rw [briefed, outcome, briefed]

/-- **A cycle goes by the keys of its candidates**, but for the records. -/
theorem resolve_outline {e : Engine} {answer answer' : List Record}
    (keys : (e.found answer).1.map Record.outline = (e.found answer').1.map Record.outline)
    (outcome : (e.found answer).2 = (e.found answer').2) :
    (e.resolve answer).1 = (e.resolve answer').1 ∧
      (e.resolve answer).2.outline = (e.resolve answer').2.outline := by
  have size : (e.found answer).1.size = (e.found answer').1.size := by
    have lengths := congrArg KeyMap.size keys
    rwa [KeyMap.size, KeyMap.size, KeyMap.map, KeyMap.map, List.length_map, List.length_map] at lengths
  have both : Prod.map id Members.outline
        ((e.briefed answer').members.reconcile Members.tell (e.found answer).1) =
      Prod.map id Members.outline
        ((e.briefed answer').members.reconcile Members.tell (e.found answer').1) := by
    rw [← outline_reconcile tell_impartial, keys, outline_reconcile tell_impartial]
  obtain ⟨changes, members⟩ := Prod.mk.inj both
  rw [resolve_eq, resolve_eq, briefed_congr outcome, size, outcome]
  refine ⟨?_, ?_⟩
  · exact congrArg (fun changes => Report.mk true _ changes _) changes
  · rw [outline_counted, outline_counted]
    exact congrArg _ members

/-- **The order in which a directory lists its records does not matter.** Whatever the state and
whatever the listener does in answer to notices: where the records at the local address are all in the
same group, a cycle with a rearranged answer comes to the same report, tells the same notices about the
same peers, and leaves the same peers tracked, failed and waiting as before; nothing but the records may
differ. Where moreover no two different records that pass have a key in common, nothing differs. -/
theorem listing_order_is_irrelevant (e : Engine) {answer answer' : List Record}
    (perm : answer.Perm answer')
    (uniform : e.config.splitDuringRollingUpdate = true → ∀ own, e.config.localAddress = some own →
      ∀ r ∈ answer, ∀ s ∈ answer, r.matchesAddress own = true → s.matchesAddress own = true →
        r.group = s.group) :
    (e.resolve answer).1 = (e.resolve answer').1 ∧
    ((e.resolve answer).2.members.notices.map fun n => (n.1, n.2.outline)) =
      ((e.resolve answer').2.members.notices.map fun n => (n.1, n.2.outline)) ∧
    (e.resolve answer).2.members.slots.keys = (e.resolve answer').2.members.slots.keys ∧
    (∀ key, ((e.resolve answer).2.members.find? key).map Tracked.outline =
      ((e.resolve answer').2.members.find? key).map Tracked.outline) ∧
    (e.resolve answer).2.outline = (e.resolve answer').2.outline ∧
    ((∀ r ∈ (Admission.ofConfig e.config).passing e.members.isExcluded answer,
      ∀ s ∈ (Admission.ofConfig e.config).passing e.members.isExcluded answer,
        r.key = s.key → r = s) → e.resolve answer = e.resolve answer') := by
  obtain ⟨passing, outcome⟩ := (Admission.ofConfig e.config).passing_perm e.members.isExcluded perm uniform
  have found : ∀ answer, e.found answer = _ := fun answer =>
    (Admission.ofConfig e.config).candidates_eq e.members.isExcluded answer
  have keys : (e.found answer).1.map Record.outline = (e.found answer').1.map Record.outline := by
    rw [found, found]
    exact byKey_outline passing
  have outcome' : (e.found answer).2 = (e.found answer').2 := by
    rw [found, found]
    exact outcome
  obtain ⟨report, outlines⟩ := resolve_outline keys outcome'
  have members : (e.resolve answer).2.members.outline = (e.resolve answer').2.members.outline :=
    congrArg Engine.members outlines
  refine ⟨report, ?_, ?_, fun key => ?_, outlines, fun distinct => ?_⟩
  · rw [← notices_outline, members, notices_outline]
  · rw [← keys_outline, members, keys_outline]
  · rw [← find?_outline, members, find?_outline]
  · have same : e.found answer = e.found answer' := by
      rw [found, found, byKey_perm passing distinct, outcome]
    rw [resolve_eq, resolve_eq, briefed_congr outcome', same]

/-- Two records collide on a port, and the first of them counts: rearranged, the answer leads to another
record, and to nothing else. Without the second one it makes no difference at all. -/
theorem colliding_ports_rearranged :
    let config := ((Config.standard.set (.portRange 1)).set (.splitDuringRollingUpdate true)).set
      (.localAddress (.v4 10 0 0 1))
    let single : List Record := [⟨"10.0.0.1", 7800, some "new", true⟩, ⟨"b", 7800, some "new", true⟩,
      ⟨"c", 7800, some "old", true⟩]
    let double : List Record := ⟨"b", 7801, some "new", false⟩ :: single
    ∃ e, session config (.fixed ⟨[⟨"10.0.0.1", 7800, some "new", true⟩, ⟨"b", 7800, some "new", true⟩,
        ⟨"x", 7800, some "new", true⟩]⟩) []
        [.turn .loop, .turn (.resume 0), .turn (.resume 0), .fail ⟨"b:7800"⟩] = some e ∧
      (e.resolve double).1 = ⟨true, 3, ⟨[⟨"b:7802"⟩], [⟨"x:7800"⟩, ⟨"x:7801"⟩], [⟨"b:7800"⟩]⟩,
        .partitioned "new" 6 2⟩ ∧
      (e.resolve double).1 = (e.resolve double.reverse).1 ∧
      (e.resolve double).2.outline = (e.resolve double.reverse).2.outline ∧
      (((e.resolve double).2.members.find? ⟨"b:7801"⟩).map (·.record.ready) = some false ∧
        ((e.resolve double.reverse).2.members.find? ⟨"b:7801"⟩).map (·.record.ready) = some true) ∧
      e.resolve single = e.resolve single.reverse := by
  intro config single double
  obtain ⟨e, he, hp⟩ := (Option.any_eq_true _ _).1 (show
    (session config (.fixed ⟨[⟨"10.0.0.1", 7800, some "new", true⟩, ⟨"b", 7800, some "new", true⟩,
        ⟨"x", 7800, some "new", true⟩]⟩) []
        [.turn .loop, .turn (.resume 0), .turn (.resume 0), .fail ⟨"b:7800"⟩]).any (fun e =>
      decide (e.config = config ∧
        (e.resolve double).1 = ⟨true, 3, ⟨[⟨"b:7802"⟩], [⟨"x:7800"⟩, ⟨"x:7801"⟩], [⟨"b:7800"⟩]⟩,
          .partitioned "new" 6 2⟩ ∧
        ((e.resolve double).2.members.find? ⟨"b:7801"⟩).map (·.record.ready) = some false ∧
        ((e.resolve double.reverse).2.members.find? ⟨"b:7801"⟩).map (·.record.ready) = some true ∧
        (∀ r ∈ (Admission.ofConfig e.config).passing e.members.isExcluded single,
          ∀ s ∈ (Admission.ofConfig e.config).passing e.members.isExcluded single,
            r.key = s.key → r = s))) = true by decide +kernel)
  obtain ⟨settings, report, late, early, distinct⟩ := of_decide_eq_true hp
  have own : e.config.localAddress = some (.v4 10 0 0 1) := by
    rw [settings]
    rfl
  have uniform : ∀ r ∈ double, ∀ s ∈ double, r.matchesAddress (.v4 10 0 0 1) = true →
      s.matchesAddress (.v4 10 0 0 1) = true → r.group = s.group := by decide +kernel
  obtain ⟨same, -, -, -, outlines, -⟩ := listing_order_is_irrelevant e
    (List.reverse_perm double).symm fun _ address h => by
      obtain rfl := Option.some.inj (own.symm.trans h)
      exact uniform
  obtain ⟨-, -, -, -, -, whole⟩ := listing_order_is_irrelevant e
    (List.reverse_perm single).symm fun _ address h => by
      obtain rfl := Option.some.inj (own.symm.trans h)
      exact fun r hr s hs => uniform r (List.mem_cons_of_mem _ hr) s (List.mem_cons_of_mem _ hs)
  exact ⟨e, he, report, same, outlines, ⟨late, early⟩, whole distinct⟩

end Engine

end Roster
