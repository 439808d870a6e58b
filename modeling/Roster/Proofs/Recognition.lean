import Roster.Candidates
import Roster.Proofs.PodRecords
import Roster.Proofs.ServiceRecords

/-!
# Proofs.Recognition — an endpoint is known by its key, and a node by its address

* `Record.PointsAt`: the address of a record is that of a node, plain or in brackets.
  `matchesAddress_iff`: such a record matches that node and no other.
* `Record.Resolved`: the records that pods and service names give. `Resolved.writes`: their addresses
  are in canonical form. `resolved_of_list`: a directory of service names lists no others.
* `endpoints_are_told_apart`: keys, the local node and the local group are never taken for another's.
-/

namespace Roster

namespace Address

theorem ne_bracket_of_mem_toChars {a : Address} {x : Char} (h : x ∈ a.toChars) : x ≠ '[' ∧ x ≠ ']' := by
  cases a with
  | v4 a b c d =>
    rcases mem_writeV4 h with rfl | plain
    · decide
    · exact plain.2.2
  | v6 groups => exact ne_bracket_of_mem_writeV6 h

end Address

/-- What is dropped at both ends is all there is around the rest. -/
theorem dropWhile_both_ends {α : Type} {p : α → Bool} {front l back : List α}
    (hfront : ∀ x ∈ front, p x = true) (hback : ∀ x ∈ back, p x = true) (hl : ∀ x ∈ l, p x = false) :
    (((front ++ l ++ back).dropWhile p).reverse.dropWhile p).reverse = l := by
  have stays : ∀ {l : List α}, (∀ x ∈ l, p x = false) → l.dropWhile p = l := by
    intro l hl
    cases l with
    | nil => rfl
    | cons x l => exact List.dropWhile_cons_of_neg (by simp [hl x List.mem_cons_self])
  rw [List.append_assoc, List.dropWhile_append_of_pos hfront]
  cases l with
  | nil =>
    have none : back.dropWhile p = [] := List.dropWhile_eq_nil_iff.2 hback
    rw [List.nil_append, none]
    rfl
  | cons x l =>
    rw [List.cons_append, List.dropWhile_cons_of_neg (by simp [hl x List.mem_cons_self]),
      ← List.cons_append, List.reverse_append,
      List.dropWhile_append_of_pos fun x hx => hback x (List.mem_reverse.1 hx),
      stays fun x hx => hl x (List.mem_reverse.1 hx), List.reverse_reverse]

namespace Record

/-- The address of the record is that of a node in canonical form, plain or in brackets. -/
def PointsAt (r : Record) (a : Address) : Prop :=
  r.address = a.write ∨ r.address = "[" ++ a.write ++ "]"

variable {r : Record} {a b : Address}

/-- **A record that points at a node matches that node and no other.** -/
theorem matchesAddress_iff (h : r.PointsAt a) : r.matchesAddress b = true ↔ a = b := by
  have bare : ∀ front back : List Char, r.address.toList = front ++ a.toChars ++ back →
      (∀ c ∈ front, (c == '[' || c == ']') = true) → (∀ c ∈ back, (c == '[' || c == ']') = true) →
      (r.matchesAddress b = true ↔ a = b) := by
    intro front back spelt hfront hback
    have inside : ∀ c ∈ a.toChars, (c == '[' || c == ']') = false := fun c hc => by
      simp [Address.ne_bracket_of_mem_toChars hc]
    unfold matchesAddress
    dsimp only
    rw [spelt, dropWhile_both_ends hfront hback inside, Address.ofChars?_toChars]
    exact beq_iff_eq
  have written : a.write.toList = a.toChars := String.toList_ofList
  rcases h with plain | bracketed
  · refine bare [] [] ?_ nofun nofun
    rw [plain, written, List.nil_append, List.append_nil]
  · refine bare ['['] [']'] ?_ (by simp) (by simp)
    rw [bracketed, String.toList_append, String.toList_append, written]
    rfl

theorem matchesAddress_eq_decide (h : r.PointsAt a) : r.matchesAddress b = decide (a = b) := by
  rw [Bool.eq_iff_iff, matchesAddress_iff h, decide_eq_true_iff]

/-- A record that points at some node matches those it points at. -/
theorem pointsAt_iff (h : ∃ a, r.PointsAt a) : r.matchesAddress b = true ↔ r.PointsAt b := by
  obtain ⟨a, ha⟩ := h
  rw [matchesAddress_iff ha]
  refine ⟨fun same => same ▸ ha, fun hb => ?_⟩
  exact (matchesAddress_iff ha).1 ((matchesAddress_iff hb).2 rfl)

/-- The first record that matches a node is the first that points at it. -/
theorem find?_pointing {answer : List Record} (pointing : ∀ r ∈ answer, ∃ a, r.PointsAt a) :
    answer.find? (·.matchesAddress b) = some r ↔ r.PointsAt b ∧
      ∃ front back, answer = front ++ r :: back ∧ ∀ s ∈ front, ¬ s.PointsAt b := by
  have known : ∀ s ∈ answer, (s.matchesAddress b = true ↔ s.PointsAt b) := fun s hs =>
    pointsAt_iff (pointing s hs)
  rw [List.find?_eq_some_iff_append]
  constructor
  · rintro ⟨points, front, back, rfl, missed⟩
    refine ⟨(known r (by simp)).1 points, front, back, rfl, fun s hs => ?_⟩
    rw [← known s (by simp [hs])]
    simpa using missed s hs
  · rintro ⟨points, front, back, rfl, missed⟩
    refine ⟨(known r (by simp)).2 points, front, back, rfl, fun s hs => ?_⟩
    have miss := missed s hs
    rw [← known s (by simp [hs])] at miss
    simpa using miss

/-- A record from the pods of a list, or from the endpoints behind a service name. -/
inductive Resolved : Record → Prop
  | pod {options : PodOptions} {body : List UInt8} {records : List Record} {complaints : List InvalidIp}
      {r : Record} (decodes : decodePodList options body = .ok (records, complaints))
      (mem : r ∈ records) : Resolved r
  | service {d : Dns} {endpoints : List Endpoint} {r : Record} (mem : r ∈ d.records endpoints) :
      Resolved r

/-- Such a record has its address in canonical form. -/
theorem Resolved.writes (h : r.Resolved) : ∃ a : Address, r.address = a.write := by
  cases h with
  | @pod options body records complaints _ decodes mem =>
    unfold decodePodList at decodes
    cases hpods : podsOfBytes body with
    | error e =>
      rw [hpods] at decodes
      cases decodes
    | ok pods =>
      rw [hpods] at decodes
      obtain ⟨rfl, -⟩ := Prod.mk.inj (Except.ok.inj decodes)
      obtain ⟨places, stand⟩ := options.recordsFrom_places [] pods
      obtain ⟨_, _, a, -, described⟩ := stand.of_mem mem
      exact ⟨a, described.address⟩
  | service mem =>
    obtain ⟨e, -, rfl⟩ := List.mem_map.1 mem
    exact ⟨e.address, rfl⟩

/-- Whatever the system and the network say, a directory of service names gives such records only. -/
theorem resolved_of_list {d : Dns} {selector : Selector} {records : List Record}
    (listed : d.list selector = .ok records) : ∀ r ∈ records, r.Resolved := by
  intro r mem
  cases selector with
  | pods => cases listed
  | service name =>
    obtain ⟨answer, rfl, -⟩ := Dns.list_sources listed
    exact .service mem

end Record

theorem Partitioner.localGroup_eq_ok (p : Partitioner) {own : Address} {answer : List Record}
    {group : String} (known : p.localAddress = some own) : p.localGroup answer = .ok group ↔
      ∃ r, answer.find? (·.matchesAddress own) = some r ∧ r.group = some group := by
  unfold Partitioner.localGroup
  rw [known]
  dsimp only
  cases answer.find? (·.matchesAddress own) with
  | none => simp
  | some r => cases hgroup : r.group <;> simp [hgroup]

/-- **Endpoints and nodes are never taken for others.** Endpoints whose addresses are written in canonical
form have the same key only if they are the same, across both families, with and without a port; so it is
with all records that pods and service names give. A record that points at a node matches that node and
no other: of such records the local node is kept out and nobody else, and the local group is that of the
first record at the local address. -/
theorem endpoints_are_told_apart :
    (∀ (a b : Address) (p q : UInt16),
      PeerKey.ofEndpoint a.write p = PeerKey.ofEndpoint b.write q ↔ a = b ∧ p = q) ∧
    (∀ r s : Record, r.Resolved → s.Resolved → ∃ a b : Address,
      r.address = a.write ∧ s.address = b.write ∧ (r.key = s.key ↔ a = b ∧ r.port = s.port)) ∧
    (∀ (r : Record) (a b : Address), r.PointsAt a → (r.matchesAddress b = true ↔ a = b)) ∧
    (∀ (admission : Admission) (own : Address) (r : Record) (a : Address),
      admission.localAddress = some own → r.PointsAt a →
      (admission.admits r = true ↔ a ≠ own ∧ (admission.requireReady = true → r.ready = true))) ∧
    ∀ (p : Partitioner) (own : Address) (answer : List Record), p.localAddress = some own →
      (∀ r ∈ answer, ∃ a, r.PointsAt a) → ∀ group,
      (p.localGroup answer = .ok group ↔ ∃ front own' back, answer = front ++ own' :: back ∧
        own'.PointsAt own ∧ (∀ r ∈ front, ¬ r.PointsAt own) ∧ own'.group = some group) := by
  refine ⟨fun a b p q => PeerKey.ofEndpoint_write_inj, fun r s hr hs => ?_,
    fun r a b => Record.matchesAddress_iff, fun admission own r a known points => ?_,
    fun p own answer known pointing group => ?_⟩
  · obtain ⟨a, ha⟩ := hr.writes
    obtain ⟨b, hb⟩ := hs.writes
    refine ⟨a, b, ha, hb, ?_⟩
    rw [Record.key, Record.key, ha, hb]
    exact PeerKey.ofEndpoint_write_inj
  · unfold Admission.admits
    rw [known]
    dsimp only
    rw [Record.matchesAddress_eq_decide points]
    cases admission.requireReady <;> simp
  · rw [p.localGroup_eq_ok known]
    constructor
    · rintro ⟨own', found, grouped⟩
      obtain ⟨points, front, back, split, missed⟩ := (Record.find?_pointing pointing).1 found
      exact ⟨front, own', back, split, points, missed, grouped⟩
    · rintro ⟨front, own', back, split, points, missed, grouped⟩
      exact ⟨own', (Record.find?_pointing pointing).2 ⟨points, front, back, split, missed⟩, grouped⟩

/-- An IPv4 address, as it is carried in IPv6. -/
def carried : Address := .v6 ⟨[0, 0, 0, 0, 0, 0xffff, 0x0a00, 1], rfl⟩

/-- A node at that address, in brackets. -/
def carriedRecord : Record := ⟨"[::ffff:10.0.0.1]", 7800, some "old", true⟩

/-- A node at the IPv4 address itself. -/
def dottedRecord : Record := ⟨"10.0.0.1", 7800, some "new", true⟩

/-- An IPv4 address and the IPv6 address that carries it are two nodes. -/
theorem carried_address_is_another :
    carriedRecord.PointsAt carried ∧ dottedRecord.PointsAt (.v4 10 0 0 1) ∧
    carriedRecord.matchesAddress (.v4 10 0 0 1) = false ∧
    Admission.admits ⟨0, .standard, some (.v4 10 0 0 1), false⟩ carriedRecord = true ∧
    Partitioner.localGroup ⟨true, some (.v4 10 0 0 1)⟩ [carriedRecord, dottedRecord] = .ok "new" ∧
    (Record.plain "::ffff:10.0.0.1" 7800).Resolved ∧ (Record.plain "10.0.0.1" 7800).Resolved ∧
    (Record.plain "::ffff:10.0.0.1" 7800).key ≠ (Record.plain "10.0.0.1" 7800).key := by
  obtain ⟨-, keys, matches_, admitted, grouped⟩ := endpoints_are_told_apart
  have points : carriedRecord.PointsAt carried := .inr (by decide +kernel)
  have points' : dottedRecord.PointsAt (.v4 10 0 0 1) := .inl (by decide +kernel)
  have differ : carried ≠ .v4 10 0 0 1 := nofun
  have missed : ¬ carriedRecord.PointsAt (.v4 10 0 0 1) := fun other =>
    differ ((matches_ _ _ _ points).1 ((matches_ _ _ _ other).2 rfl))
  have mem : Record.plain "::ffff:10.0.0.1" 7800 ∈ (Dns.aRecords 7800).records [⟨carried, 0⟩] :=
    List.mem_singleton.2 (by decide +kernel)
  have mem' : Record.plain "10.0.0.1" 7800 ∈ (Dns.aRecords 7800).records [⟨.v4 10 0 0 1, 0⟩] :=
    List.mem_singleton.2 (by decide +kernel)
  have resolved : (Record.plain "::ffff:10.0.0.1" 7800).Resolved := .service mem
  have resolved' : (Record.plain "10.0.0.1" 7800).Resolved := .service mem'
  refine ⟨points, points', ?_, (admitted _ _ _ _ rfl points).2 ⟨differ, nofun⟩, ?_, resolved, resolved',
    fun same => ?_⟩
  · exact Bool.eq_false_iff.2 fun same => differ ((matches_ _ _ _ points).1 same)
  · refine (grouped _ _ _ rfl ?_ "new").2 ⟨[carriedRecord], dottedRecord, [], rfl, points', ?_, rfl⟩
    · rintro r (_ | ⟨_, _ | ⟨_, ⟨⟩⟩⟩)
      · exact ⟨_, points⟩
      · exact ⟨_, points'⟩
    · rintro r (_ | ⟨_, ⟨⟩⟩)
      exact missed
  · obtain ⟨a, b, ha, hb, apart⟩ := keys _ _ resolved resolved'
    rw [(apart.1 same).1] at ha
    have equal := ha.trans hb.symm
    revert equal
    decide +kernel

end Roster
