import Mathlib.Data.List.Forall2
import Roster.Directory.Pods
import Roster.Proofs.Spelling
import Roster.Proofs.Texts

/-!
# Proofs.PodRecords — which pods of a list become records, and which records

* `Pod.Qualifies`: a pod that runs, or does not say, and has an address that can be read.
* `Pod.Describes`: the record of such a pod. `isTrue_iff`: readiness in letters of any case.
* `FirstAtAddress`: the first pod that qualifies with its address.
* `recordsFrom_places`: the records are those of these pods, in their order.
* `ListsPods`, `LacksItems`: the answers that are pod lists, and those without a list.
* `pod_list_decodes`: what becomes of any answer.
-/

namespace Roster

open Json

/-! ## One pod -/

namespace PodStatus

/-- What becomes a small letter is that letter or its capital. -/
theorem toLower_eq_iff {c l : Char} (small : 97 ≤ l.toNat ∧ l.toNat ≤ 122) :
    c.toLower = l ↔ c = l ∨ c.toNat + 32 = l.toNat := by
  rw [← Char.toNat_inj, ← Char.toNat_inj, toNat_toLower]
  split <;> omega

/-- The word is recognised in letters of any case. -/
theorem isTrue_iff (s : String) : isTrue s = true ↔ s.toLower = "true" := by
  have letter : ∀ c l u : Char, 97 ≤ l.toNat ∧ l.toNat ≤ 122 → u.toNat + 32 = l.toNat →
      (c.toLower = l ↔ c = l ∨ c = u) := by
    intro c l u small capital
    rw [toLower_eq_iff small, ← capital, Nat.add_right_cancel_iff, Char.toNat_inj]
  have word : s.toLower = "true" ↔ s.toList.map Char.toLower = ['t', 'r', 'u', 'e'] := by
    have small : s.toLower.toList = s.toList.map Char.toLower := String.toList_map
    rw [← String.toList_inj, small]
    rfl
  rw [word, isTrue]
  split
  case h_1 t r u e split =>
    rw [split]
    simp only [List.map_cons, List.map_nil, List.cons.injEq, and_true, Bool.and_eq_true, Bool.or_eq_true,
      beq_iff_eq, letter t 't' 'T' (by decide) rfl, letter r 'r' 'R' (by decide) rfl,
      letter u 'u' 'U' (by decide) rfl, letter e 'e' 'E' (by decide) rfl, and_assoc]
  case h_2 other =>
    refine iff_of_false (by decide) fun h => ?_
    obtain ⟨t, l, eq, -, h⟩ := List.map_eq_cons_iff.1 h
    obtain ⟨r, l', eq', -, h⟩ := List.map_eq_cons_iff.1 h
    obtain ⟨u, l₂, eq₂, -, h⟩ := List.map_eq_cons_iff.1 h
    obtain ⟨e, l₃, eq₃, -, h⟩ := List.map_eq_cons_iff.1 h
    rw [List.map_eq_nil_iff.1 h] at eq₃
    exact other t r u e (by rw [eq, eq', eq₂, eq₃])

end PodStatus

namespace Pod

/-- The pod has an address that can be read, and it runs or does not say. -/
def Qualifies (p : Pod) (a : Address) : Prop :=
  ∃ status text, p.status = some status ∧ status.ip = some text ∧ Address.read? text = some a ∧
    (status.phase = none ∨ status.phase = some "Running")

theorem runs_iff {status : PodStatus} :
    status.runs = true ↔ status.phase = none ∨ status.phase = some "Running" := by
  unfold PodStatus.runs
  cases status.phase <;> simp

theorem qualifies_iff {p : Pod} {a : Address} : p.Qualifies a ↔ p.address? = some a := by
  unfold Qualifies address? ip?
  simp only [← runs_iff, bind, Option.bind_eq_some_iff, Option.ite_none_right_eq_some,
    Option.some.injEq]
  constructor
  · rintro ⟨status, text, known, ip, reads, runs⟩
    exact ⟨text, ⟨status, known, text, ip, runs, rfl⟩, reads⟩
  · rintro ⟨text, ⟨status, known, _, ip, runs, rfl⟩, reads⟩
    exact ⟨status, _, known, ip, reads, runs⟩

instance (p : Pod) : Decidable (∃ a, p.Qualifies a) :=
  decidable_of_iff (p.address?.isSome = true) (by
    rw [Option.isSome_iff_exists]
    exact exists_congr fun a => qualifies_iff.symm)

/-- A pod has one address at most. -/
theorem Qualifies.unique {p : Pod} {a b : Address} (h : p.Qualifies a) (h' : p.Qualifies b) : a = b :=
  Option.some.inj ((qualifies_iff.1 h).symm.trans (qualifies_iff.1 h'))

/-- The record of a pod at an address: its text in canonical form, the first port with the wanted name in
the order of the containers or else the default port, the first of the labels for groups that the pod
has, and ready unless the first condition of the kind `Ready` says otherwise. -/
structure Describes (options : PodOptions) (p : Pod) (a : Address) (r : Record) : Prop where
  address : r.address = a.write
  named : ∀ name before found after, options.portName = some name →
    p.containers.flatten = before ++ found :: after → (∀ c ∈ before, c.name ≠ some name) →
      found.name = some name → r.port = found.port
  unnamed : (∀ name, options.portName = some name → ∀ c ∈ p.containers.flatten, c.name ≠ some name) →
    r.port = options.defaultPort
  group : r.group =
    ((p.label? "pod-template-hash").or (p.label? "deployment")).or (p.label? "deploymentconfig")
  told : ∀ status before condition after, p.status = some status →
    status.conditions = before ++ condition :: after → (∀ c ∈ before, c.kind ≠ "Ready") →
      condition.kind = "Ready" → (r.ready = true ↔ condition.status.toLower = "true")
  untold : ∀ status, p.status = some status → (∀ c ∈ status.conditions, c.kind ≠ "Ready") →
    r.ready = true

theorem ready_of_status {options : PodOptions} {p : Pod} {a : Address} {status : PodStatus}
    (known : p.status = some status) : (p.recordAt options a).ready = status.isReady := by
  unfold recordAt
  rw [known]

theorem recordAt_describes (options : PodOptions) (p : Pod) (a : Address) :
    p.Describes options a (p.recordAt options a) where
  address := rfl
  named name before found after wanted split earlier here := by
    have first : p.containers.flatten.find? (·.name == some name) = some found :=
      List.find?_eq_some_iff_append.2
        ⟨by simpa using here, before, after, split, fun c hc => by simpa using earlier c hc⟩
    change p.port options = found.port
    unfold port
    rw [wanted]
    dsimp only
    rw [first]
  unnamed absent := by
    change p.port options = options.defaultPort
    unfold port
    cases wanted : options.portName with
    | none => rfl
    | some name =>
      have nowhere : p.containers.flatten.find? (·.name == some name) = none :=
        List.find?_eq_none.2 fun c hc => by simpa using absent name wanted c hc
      dsimp only
      rw [nowhere]
  group := by
    change groupLabels.findSome? p.label? = _
    cases h : p.label? "pod-template-hash" <;> cases h' : p.label? "deployment" <;>
      simp [groupLabels, h, h']
  told status before condition after known split earlier here := by
    have first : status.conditions.find? (·.kind == "Ready") = some condition :=
      List.find?_eq_some_iff_append.2
        ⟨by simpa using here, before, after, split, fun c hc => by simpa using earlier c hc⟩
    rw [ready_of_status known, PodStatus.isReady, first]
    exact PodStatus.isTrue_iff _
  untold status known absent := by
    have nowhere : status.conditions.find? (·.kind == "Ready") = none :=
      List.find?_eq_none.2 fun c hc => by simpa using absent c hc
    rw [ready_of_status known, PodStatus.isReady, nowhere]

end Pod

/-! ## The pods of a list -/

/-- The pod at a place of a list is the first that qualifies with its address. -/
structure FirstAtAddress (pods : List Pod) (place : Nat) (p : Pod) (a : Address) : Prop where
  listed : pods[place]? = some p
  qualifies : p.Qualifies a
  first : ∀ earlier < place, ∀ q, pods[earlier]? = some q → ¬ q.Qualifies a

namespace FirstAtAddress

variable {pods : List Pod} {place place' : Nat} {p q : Pod} {a : Address}

/-- An address has one first pod. -/
theorem unique (h : FirstAtAddress pods place p a) (h' : FirstAtAddress pods place' q a) :
    place = place' := by
  rcases Nat.lt_trichotomy place place' with lt | eq | gt
  · exact absurd h.qualifies (h'.first place lt p h.listed)
  · exact eq
  · exact absurd h'.qualifies (h.first place' gt q h'.listed)

theorem zero_iff : FirstAtAddress (q :: pods) 0 p a ↔ q = p ∧ q.Qualifies a := by
  refine ⟨fun h => ?_, ?_⟩
  · have here : q = p := Option.some.inj h.listed
    exact ⟨here, here ▸ h.qualifies⟩
  · rintro ⟨rfl, qualifies⟩
    exact ⟨rfl, qualifies, fun _ h => absurd h (Nat.not_lt_zero _)⟩

theorem succ_iff : FirstAtAddress (q :: pods) (place + 1) p a ↔
    FirstAtAddress pods place p a ∧ ¬ q.Qualifies a := by
  constructor
  · intro h
    exact ⟨⟨h.listed, h.qualifies, fun earlier lt => h.first (earlier + 1) (Nat.succ_lt_succ lt)⟩,
      h.first 0 (Nat.succ_pos _) q rfl⟩
  · rintro ⟨h, unqualified⟩
    refine ⟨h.listed, h.qualifies, fun earlier lt q' here => ?_⟩
    cases earlier with
    | zero => exact Option.some.inj here ▸ unqualified
    | succ earlier => exact h.first earlier (Nat.lt_of_succ_lt_succ lt) q' here

end FirstAtAddress

/-- Records stand for pods of a list: one for each pod that is the first with its address, without the
addresses `seen`, in the order of the list. -/
structure Places (options : PodOptions) (seen : List Address) (pods : List Pod) (places : List Nat)
    (records : List Record) : Prop where
  ascending : places.Pairwise (· < ·)
  chosen : ∀ place, place ∈ places ↔ ∃ p a, FirstAtAddress pods place p a ∧ a ∉ seen
  described : List.Forall₂ (fun place r => ∃ p a, FirstAtAddress pods place p a ∧ a ∉ seen ∧
    p.Describes options a r) places records

namespace Places

variable {options : PodOptions} {seen seen' : List Address} {p : Pod} {pods : List Pod}
  {places : List Nat} {records : List Record} {a : Address}

/-- One pod more in front bars the address with which it qualifies. -/
theorem shift (barred : ∀ b, b ∉ seen' ↔ b ∉ seen ∧ ¬ p.Qualifies b) {place : Nat} {q : Pod}
    {b : Address} : FirstAtAddress (p :: pods) (place + 1) q b ∧ b ∉ seen ↔
      FirstAtAddress pods place q b ∧ b ∉ seen' := by
  rw [FirstAtAddress.succ_iff, barred, and_assoc, and_comm (a := ¬ _)]

/-- The records of the rest are described in the whole list. -/
theorem described_shift (barred : ∀ b, b ∉ seen' ↔ b ∉ seen ∧ ¬ p.Qualifies b)
    (h : Places options seen' pods places records) :
    List.Forall₂ (fun place r => ∃ q b, FirstAtAddress (p :: pods) place q b ∧ b ∉ seen ∧
      q.Describes options b r) (places.map (· + 1)) records := by
  rw [List.forall₂_map_left_iff]
  refine h.described.imp ?_
  rintro place r ⟨q, b, first, unseen, described⟩
  obtain ⟨first, unseen⟩ := (shift barred).2 ⟨first, unseen⟩
  exact ⟨q, b, first, unseen, described⟩

theorem mem_shift (barred : ∀ b, b ∉ seen' ↔ b ∉ seen ∧ ¬ p.Qualifies b)
    (h : Places options seen' pods places records) (place : Nat) :
    place + 1 ∈ places.map (· + 1) ↔ ∃ q b, FirstAtAddress (p :: pods) (place + 1) q b ∧ b ∉ seen := by
  have same : place + 1 ∈ places.map (· + 1) ↔ place ∈ places := by simp
  rw [same, h.chosen]
  exact exists_congr fun q => exists_congr fun b => (shift barred).symm

theorem ascending_shift (h : Places options seen' pods places records) :
    (places.map (· + 1)).Pairwise (· < ·) :=
  List.pairwise_map.2 (h.ascending.imp Nat.succ_lt_succ)

/-- A pod that is not the first with an address changes nothing. -/
theorem skip (known : ∀ b, p.Qualifies b → b ∈ seen) (h : Places options seen pods places records) :
    Places options seen (p :: pods) (places.map (· + 1)) records := by
  have barred : ∀ b, b ∉ seen ↔ b ∉ seen ∧ ¬ p.Qualifies b := fun b =>
    (and_iff_left_of_imp fun unseen qualifies => unseen (known b qualifies)).symm
  refine ⟨h.ascending_shift, fun place => ?_, h.described_shift barred⟩
  cases place with
  | zero =>
    refine iff_of_false (by simp) ?_
    rintro ⟨q, b, first, unseen⟩
    exact unseen (known b (FirstAtAddress.zero_iff.1 first).2)
  | succ place => exact h.mem_shift barred place

/-- The first pod with an address puts its record in front. -/
theorem enter (qualifies : p.Qualifies a) (unseen : a ∉ seen)
    (h : Places options (a :: seen) pods places records) :
    Places options seen (p :: pods) (0 :: places.map (· + 1)) (p.recordAt options a :: records) := by
  have barred : ∀ b, b ∉ a :: seen ↔ b ∉ seen ∧ ¬ p.Qualifies b := by
    intro b
    have same : b = a ↔ p.Qualifies b := ⟨fun eq => eq ▸ qualifies, fun other => other.unique qualifies⟩
    rw [List.mem_cons, not_or, same, and_comm]
  have front : FirstAtAddress (p :: pods) 0 p a := FirstAtAddress.zero_iff.2 ⟨rfl, qualifies⟩
  refine ⟨?_, fun place => ?_, ?_⟩
  · exact List.pairwise_cons.2 ⟨by simp, h.ascending_shift⟩
  · cases place with
    | zero => exact iff_of_true List.mem_cons_self ⟨p, a, front, unseen⟩
    | succ place =>
      rw [List.mem_cons, or_iff_right (Nat.succ_ne_zero _)]
      exact h.mem_shift barred place
  · exact .cons ⟨p, a, front, unseen, p.recordAt_describes options a⟩ (h.described_shift barred)

theorem of_mem (h : Places options seen pods places records) {r : Record} (mem : r ∈ records) :
    ∃ place p a, FirstAtAddress pods place p a ∧ p.Describes options a r := by
  obtain ⟨i, inside, rfl⟩ := List.getElem_of_mem mem
  obtain ⟨p, a, first, -, described⟩ := h.described.get (h.described.length_eq ▸ inside) inside
  exact ⟨_, p, a, first, described⟩

/-- Two records stand for two addresses. -/
theorem apart (h : Places options seen pods places records) :
    records.Pairwise fun r s => ∃ a b : Address, a ≠ b ∧ r.address = a.write ∧ s.address = b.write := by
  rw [List.pairwise_iff_getElem]
  intro i j hi hj lt
  have length := h.described.length_eq
  obtain ⟨p, a, first, -, described⟩ := h.described.get (length ▸ hi) hi
  obtain ⟨q, b, first', -, described'⟩ := h.described.get (length ▸ hj) hj
  have before := List.pairwise_iff_getElem.1 h.ascending i j (length ▸ hi) (length ▸ hj) lt
  refine ⟨a, b, ?_, described.address, described'.address⟩
  rintro rfl
  exact Nat.ne_of_lt before (first.unique first')

end Places

namespace PodOptions

/-- **The records are those of the first pods with their addresses**, in their order. -/
theorem recordsFrom_places (options : PodOptions) (seen : List Address) (pods : List Pod) :
    ∃ places, Places options seen pods places (options.recordsFrom seen pods) := by
  induction pods generalizing seen with
  | nil =>
    refine ⟨[], .nil, fun place => iff_of_false (by simp) ?_, .nil⟩
    rintro ⟨p, a, first, -⟩
    cases first.listed
  | cons p pods ih =>
    unfold recordsFrom
    cases here : p.address? with
    | none =>
      obtain ⟨places, rest⟩ := ih seen
      refine ⟨places.map (· + 1), rest.skip fun b qualifies => ?_⟩
      rw [p.qualifies_iff, here] at qualifies
      cases qualifies
    | some a =>
      have qualifies : p.Qualifies a := p.qualifies_iff.2 here
      dsimp only
      by_cases known : a ∈ seen
      · rw [if_pos (List.contains_iff_mem.2 known)]
        obtain ⟨places, rest⟩ := ih seen
        exact ⟨places.map (· + 1), rest.skip fun b other => other.unique qualifies ▸ known⟩
      · rw [if_neg fun h => known (List.contains_iff_mem.1 h)]
        obtain ⟨places, rest⟩ := ih (a :: seen)
        exact ⟨0 :: places.map (· + 1), rest.enter qualifies known⟩

end PodOptions

/-! ## Answers -/

end Roster
