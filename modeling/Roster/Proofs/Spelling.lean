import Mathlib.Algebra.Group.Nat.Defs
import Mathlib.Data.List.Basic
import Roster.Address.Reader
import Roster.Address.Writer
import Roster.Peer

/-!
# Proofs.Spelling — the canonical text of an address reads back as the address

* `Numeral`: the digits of a number, as they are written. `readNumber_toDigits`: they read back, whatever
  follows that is no digit.
* `readV4_writeV4`, `readGroups_writeGroups`: octets and groups read back. Groups stop at the end of the
  text and before `::`; no group is taken for the start of a dotted address.
* `longestZeros_spec`: what `::` leaves out are zeros.
* `ofChars?_toChars`, `read?_write`: every address reads back, so no two have the same text.
-/

namespace Roster

namespace Address

/-! ## Numbers -/

/-- The digits of a number in some base, most significant first and without leading zeros. -/
structure Numeral (base n : Nat) (digits : List Nat) : Prop where
  written : Nat.toDigits base n = digits.map Nat.digitChar
  below : ∀ d ∈ digits, d < base
  worth : value base digits = n
  leading : digits.head? = some 0 → digits.length = 1

/-- The bases in which addresses are written. -/
def Known (base : Nat) : Prop := base = 10 ∨ base = 16

theorem exists_numeral {base : Nat} (known : Known base) (n : Nat) :
    ∃ digits, Numeral base n digits := by
  have large : 1 < base := by rcases known with rfl | rfl <;> decide
  induction n using Nat.strongRecOn with
  | ind n ih =>
    by_cases small : n < base
    · exact ⟨[n], by rw [Nat.toDigits_of_lt_base small]; rfl, by simpa using small, by simp [value],
        fun _ => rfl⟩
    · have lower : n / base < n := Nat.div_lt_self (by omega) large
      obtain ⟨digits, h⟩ := ih _ lower
      have filled : digits ≠ [] := by
        rintro rfl
        exact Nat.toDigits_ne_nil (h.written.trans rfl)
      refine ⟨digits ++ [n % base], ?_, ?_, ?_, fun zero => ?_⟩
      · rw [Nat.toDigits_eq_if large, if_neg small, h.written, List.map_append]
        rfl
      · intro d hd
        rcases List.mem_append.1 hd with hd | hd
        · exact h.below d hd
        · obtain rfl := List.mem_singleton.1 hd
          exact Nat.mod_lt _ (by omega)
      · have step : value base (digits ++ [n % base]) = value base digits * base + n % base := by
          unfold value
          rw [List.foldl_append]
          rfl
        rw [step, h.worth, Nat.mul_comm, Nat.div_add_mod]
      · -- A leading zero would be all that is left of a number that is not below the base.
        rw [List.head?_append_of_ne_nil _ filled] at zero
        obtain ⟨d, rfl⟩ := List.length_eq_one_iff.1 (h.leading zero)
        obtain rfl : d = 0 := by simpa using zero
        have empty : n / base = 0 := by simpa [value] using h.worth.symm
        have := Nat.div_pos (Nat.not_lt.1 small) (by omega : 0 < base)
        omega

theorem digit?_digitChar {base d : Nat} (known : Known base) (h : d < base) :
    digit? base (Nat.digitChar d) = some d := by
  rcases known with rfl | rfl <;> (revert d; decide)

/-- No digit comes next. -/
def Stops (base : Nat) (rest : List Char) : Prop := ∀ c ∈ rest.head?, digit? base c = none

theorem readDigits_of_stops {base : Nat} {rest : List Char} (stops : Stops base rest) :
    readDigits base rest = ([], rest) := by
  cases rest with
  | nil => rfl
  | cons c rest =>
    rw [readDigits, stops c rfl]

theorem readDigits_map_digitChar {base : Nat} (known : Known base) {digits : List Nat}
    (below : ∀ d ∈ digits, d < base) {rest : List Char} (stops : Stops base rest) :
    readDigits base (digits.map Nat.digitChar ++ rest) = (digits, rest) := by
  induction digits with
  | nil => exact readDigits_of_stops stops
  | cons d digits ih =>
    rw [List.map_cons, List.cons_append, readDigits, digit?_digitChar known (below d List.mem_cons_self)]
    dsimp only
    rw [ih fun x hx => below x (List.mem_cons_of_mem _ hx)]

/-- **A written number reads back**, whatever follows that is no digit. -/
theorem readNumber_toDigits {base most n : Nat} (known : Known base) (fits : n < base ^ most)
    (room : 0 < most) (zeros : Bool) {rest : List Char} (stops : Stops base rest) :
    readNumber base most zeros (Nat.toDigits base n ++ rest) = some (n, rest) := by
  have large : 1 < base := by rcases known with rfl | rfl <;> decide
  obtain ⟨digits, h⟩ := exists_numeral known n
  have length : digits.length ≤ most := by
    rw [← List.length_map (f := Nat.digitChar), ← h.written]
    exact (Nat.length_toDigits_le_iff large room).2 fits
  have filled : digits ≠ [] := by
    rintro rfl
    exact Nat.toDigits_ne_nil (h.written.trans rfl)
  unfold readNumber
  rw [h.written, readDigits_map_digitChar known h.below stops]
  dsimp only
  rw [if_neg (by simp [filled, length]), h.worth, if_neg]
  rintro leads
  simp only [Bool.and_eq_true, beq_iff_eq, decide_eq_true_eq] at leads
  have := h.leading leads.1.2
  omega

/-! ## Octets -/

theorem digit?_of_separator {base : Nat} (known : Known base) : digit? base ':' = none ∧
    digit? base '.' = none := by
  rcases known with rfl | rfl <;> decide

theorem stops_cons {base : Nat} {c : Char} (h : digit? base c = none) (rest : List Char) :
    Stops base (c :: rest) := fun _ hc => Option.some.inj hc ▸ h

theorem readOctet_writeOctet (o : UInt8) {rest : List Char} (stops : Stops 10 rest) :
    readOctet (writeOctet o ++ rest) = some (o, rest) := by
  have small := o.toNat_lt
  unfold readOctet writeOctet
  rw [readNumber_toDigits (.inl rfl) (by omega) (by decide) false stops]
  dsimp only
  rw [if_pos (by omega)]
  exact congrArg (fun o => some (o, rest)) UInt8.ofNat_toNat

@[simp] theorem expect_self (c : Char) (rest : List Char) : expect c (c :: rest) = some rest :=
  if_pos rfl

theorem readV4_writeV4 (a b c d : UInt8) {rest : List Char} (stops : Stops 10 rest) :
    readV4 (writeV4 a b c d ++ rest) = some ((a, b, c, d), rest) := by
  have dot : ∀ rest, Stops 10 ('.' :: rest) := stops_cons (digit?_of_separator (.inl rfl)).2
  unfold readV4 writeV4
  simp only [List.append_assoc, List.cons_append, readOctet_writeOctet _ (dot _),
    readOctet_writeOctet d stops, expect_self, Option.bind_eq_bind, Option.bind_some]
  rfl

theorem readV4_all (a b c d : UInt8) : readV4 (writeV4 a b c d) = some ((a, b, c, d), []) := by
  rw [← List.append_nil (writeV4 a b c d)]
  exact readV4_writeV4 a b c d fun _ h => by cases h

/-- The digits of an octet are all the digits at the front. -/
theorem rest_of_readOctet {s rest : List Char} {o : UInt8} (h : readOctet s = some (o, rest)) :
    rest = (readDigits 10 s).2 := by
  unfold readOctet readNumber at h
  grind

/-- Where no dot follows the first digits there is no dotted address. -/
theorem readV4_of_undotted {s : List Char} (undotted : ∀ c ∈ (readDigits 10 s).2.head?, c ≠ '.') :
    readV4 s = none := by
  unfold readV4
  cases h : readOctet s with
  | none => rfl
  | some found =>
    obtain ⟨o, rest⟩ := found
    have stuck : expect '.' rest = none := by
      rw [rest_of_readOctet h]
      cases hr : (readDigits 10 s).2 with
      | nil => rfl
      | cons c rest => exact if_neg (undotted c (by rw [hr]; rfl))
    simp [stuck]

/-! ## Groups -/

/-- The text goes on with a colon, or not at all. -/
def Paused (rest : List Char) : Prop := ∀ c ∈ rest.head?, c = ':'

theorem Paused.stops {rest : List Char} (h : Paused rest) {base : Nat} (known : Known base) :
    Stops base rest := fun c hc => h c hc ▸ (digit?_of_separator known).1

theorem paused_colon (rest : List Char) : Paused (':' :: rest) := fun _ h => (Option.some.inj h).symm

/-- The character is neither a separator nor a bracket. -/
def Plain (c : Char) : Prop := c ≠ '.' ∧ c ≠ ':' ∧ c ≠ '[' ∧ c ≠ ']'

instance (c : Char) : Decidable (Plain c) := inferInstanceAs (Decidable (_ ∧ _))

theorem plain_of_mem_toDigits {base n : Nat} (known : Known base) {c : Char}
    (h : c ∈ Nat.toDigits base n) : Plain c := by
  obtain ⟨digits, numeral⟩ := exists_numeral known n
  rw [numeral.written] at h
  obtain ⟨d, hd, rfl⟩ := List.mem_map.1 h
  have below : d < 16 := by
    have := numeral.below d hd
    rcases known with rfl | rfl <;> omega
  exact (by decide : ∀ d < 16, Plain (Nat.digitChar d)) d below

theorem readGroup_writeGroup (g : UInt16) {rest : List Char} (paused : Paused rest) :
    readGroup (writeGroup g ++ rest) = some (g, rest) := by
  have small := g.toNat_lt
  unfold readGroup writeGroup
  rw [readNumber_toDigits (.inr rfl) (by omega) (by decide) true (paused.stops (.inr rfl)),
    Option.map_some]
  exact congrArg (fun g => some (g, rest)) UInt16.ofNat_toNat

/-- Characters without a dot, and then a pause. -/
theorem undotted_of_paused {front rest : List Char} (plain : ∀ c ∈ front, c ≠ '.')
    (paused : Paused rest) : ∀ c ∈ (readDigits 10 (front ++ rest)).2.head?, c ≠ '.' := by
  induction front with
  | nil =>
    rw [List.nil_append, readDigits_of_stops (paused.stops (.inl rfl))]
    intro c hc
    rw [paused c hc]
    decide
  | cons x front ih =>
    rw [List.cons_append, readDigits]
    cases digit? 10 x with
    | some d => exact ih fun c hc => plain c (List.mem_cons_of_mem _ hc)
    | none => exact fun c hc => Option.some.inj hc ▸ plain x List.mem_cons_self

/-- No group is taken for the first octet of a dotted address. -/
theorem readV4_writeGroup (g : UInt16) {rest : List Char} (paused : Paused rest) :
    readV4 (writeGroup g ++ rest) = none :=
  readV4_of_undotted (undotted_of_paused (fun _ hc => (plain_of_mem_toDigits (.inr rfl) hc).1) paused)

/-- Groups after the first, each behind its colon. -/
def following (groups : List UInt16) : List Char := groups.flatMap fun g => ':' :: writeGroup g

theorem writeGroups_cons (g : UInt16) (groups : List UInt16) :
    writeGroups (g :: groups) = writeGroup g ++ following groups := by
  induction groups generalizing g with
  | nil => exact (List.append_nil _).symm
  | cons h groups ih =>
    rw [writeGroups, ih, following, following, List.flatMap_cons, List.cons_append]
    exact fun h => by cases h

/-- Where groups stop: at the end, or before the mark for zeros. -/
inductive Ending : List Char → Prop
  | done : Ending []
  | zeros (rest : List Char) : Ending (':' :: ':' :: rest)

theorem Ending.paused {rest : List Char} (h : Ending rest) (groups : List UInt16) :
    Paused (following groups ++ rest) := by
  cases groups with
  | nil =>
    cases h with
    | done => exact fun _ h => by cases h
    | zeros rest => exact paused_colon _
  | cons g groups => exact paused_colon _

/-- No group begins with a colon. -/
theorem readGroup_colon (rest : List Char) : readGroup (':' :: rest) = none := by
  unfold readGroup readNumber
  rw [readDigits_of_stops (stops_cons (digit?_of_separator (.inr rfl)).1 rest)]
  rfl

theorem readV4_colon (rest : List Char) : readV4 (':' :: rest) = none := by
  refine readV4_of_undotted ?_
  rw [readDigits_of_stops (stops_cons (digit?_of_separator (.inl rfl)).1 rest)]
  rintro c hc
  obtain rfl := Option.some.inj hc
  decide

/-- One group is read, where nothing dotted stands. -/
theorem readGroups_step {most : Nat} {first : Bool} {s body rest : List Char} {g : UInt16}
    (start : (if first then some s else expect ':' s) = some body) (plain : readV4 body = none)
    (group : readGroup body = some (g, rest)) : readGroups (most + 1) first s =
      (g :: (readGroups most false rest).1, (readGroups most false rest).2) := by
  rw [readGroups, start]
  dsimp only
  rw [plain, ite_self]
  dsimp only
  rw [group]

/-- Nothing is read where no group begins. -/
theorem readGroups_stuck {most : Nat} {first : Bool} {s : List Char}
    (stuck : ∀ body, (if first then some s else expect ':' s) = some body →
      readV4 body = none ∧ readGroup body = none) : readGroups most first s = ([], false, s) := by
  cases most with
  | zero => rfl
  | succ most =>
    rw [readGroups]
    cases start : if first then some s else expect ':' s with
    | none => rfl
    | some body =>
      dsimp only
      rw [(stuck body start).1, ite_self]
      dsimp only
      rw [(stuck body start).2]

theorem Ending.stuck {rest : List Char} (h : Ending rest) (most : Nat) (first : Bool) :
    readGroups most first rest = ([], false, rest) := by
  refine readGroups_stuck fun body start => ?_
  cases h with
  | done =>
    cases first with
    | true => cases start; decide
    | false => cases start
  | zeros rest =>
    cases first with
    | true => cases start; exact ⟨readV4_colon _, readGroup_colon _⟩
    | false =>
      obtain rfl := Option.some.inj ((expect_self ':' (':' :: rest)).symm.trans start)
      exact ⟨readV4_colon _, readGroup_colon _⟩

theorem readGroups_following {groups : List UInt16} {rest : List Char} (ending : Ending rest)
    {most : Nat} (fits : groups.length ≤ most) :
    readGroups most false (following groups ++ rest) = (groups, false, rest) := by
  induction groups generalizing most with
  | nil => exact ending.stuck most false
  | cons g groups ih =>
    obtain ⟨most, rfl⟩ := Nat.exists_eq_succ_of_ne_zero (n := most) (by rintro rfl; cases fits)
    have paused := ending.paused groups
    rw [following, List.flatMap_cons, ← following, List.cons_append, List.cons_append, List.append_assoc,
      readGroups_step (by exact expect_self ':' _) (readV4_writeGroup g paused)
        (readGroup_writeGroup g paused),
      ih (Nat.le_of_succ_le_succ fits)]

/-- **Written groups read back**, up to where they stop. -/
theorem readGroups_writeGroups {groups : List UInt16} {rest : List Char} (ending : Ending rest)
    {most : Nat} (fits : groups.length ≤ most) :
    readGroups most true (writeGroups groups ++ rest) = (groups, false, rest) := by
  cases groups with
  | nil => exact ending.stuck most true
  | cons g groups =>
    obtain ⟨most, rfl⟩ := Nat.exists_eq_succ_of_ne_zero (n := most) (by rintro rfl; cases fits)
    have paused := ending.paused groups
    rw [writeGroups_cons, List.append_assoc, readGroups_step rfl (readV4_writeGroup g paused)
      (readGroup_writeGroup g paused), readGroups_following ending (Nat.le_of_succ_le_succ fits)]

/-- Written groups with nothing behind them. -/
theorem readGroups_all {groups : List UInt16} {most : Nat} (fits : groups.length ≤ most) :
    readGroups most true (writeGroups groups) = (groups, false, []) := by
  rw [← List.append_nil (writeGroups groups)]
  exact readGroups_writeGroups .done fits

/-! ## Zeros -/

theorem zerosAhead_spec (groups : List UInt16) : zerosAhead groups ≤ groups.length ∧
    groups = List.replicate (zerosAhead groups) 0 ++ groups.drop (zerosAhead groups) := by
  induction groups with
  | nil => exact ⟨Nat.le_refl _, rfl⟩
  | cons g groups ih =>
    rw [zerosAhead]
    split
    · next zero =>
      subst zero
      exact ⟨Nat.succ_le_succ ih.1, congrArg (List.cons 0) ih.2⟩
    · exact ⟨Nat.zero_le _, rfl⟩

/-- The longest run of zeros lies within the groups. -/
theorem longestZeros_spec (groups : List UInt16) :
    (longestZeros groups).1 + (longestZeros groups).2 ≤ groups.length ∧
      groups = groups.take (longestZeros groups).1 ++ List.replicate (longestZeros groups).2 0 ++
        groups.drop ((longestZeros groups).1 + (longestZeros groups).2) := by
  induction groups with
  | nil => exact ⟨Nat.le_refl _, rfl⟩
  | cons g groups ih =>
    rw [longestZeros]
    dsimp only
    split
    · rw [Nat.zero_add, List.take_zero, List.nil_append]
      exact zerosAhead_spec _
    · rw [Nat.add_right_comm]
      exact ⟨Nat.succ_le_succ ih.1, congrArg (List.cons g) ih.2⟩

/-! ## Addresses -/

/-- The two octets of a group. -/
theorem pair_of_group (g : UInt16) : pair (g.toNat / 256).toUInt8 (g.toNat % 256).toUInt8 = g := by
  have small := g.toNat_lt
  have hi : (g.toNat / 256).toUInt8.toNat = g.toNat / 256 := Nat.mod_eq_of_lt (by omega)
  have lo : (g.toNat % 256).toUInt8.toNat = g.toNat % 256 := Nat.mod_eq_of_lt (by omega)
  rw [pair, hi, lo, Nat.div_add_mod']
  exact UInt16.ofNat_toNat

theorem mapped?_eq_some {groups : List UInt16} {a b c d : UInt8}
    (h : mapped? groups = some (a, b, c, d)) :
    groups = [0, 0, 0, 0, 0, 0xffff, pair a b, pair c d] := by
  unfold mapped? at h
  split at h
  · next x y =>
    cases h
    rw [pair_of_group, pair_of_group]
  · cases h

theorem ofList?_toList (groups : Groups) : Groups.ofList? groups.toList = some groups :=
  dif_pos groups.length_toList

/-- Eight groups that stand in full. -/
theorem readV6_of_full {groups : Groups} {s : List Char}
    (full : readGroups 8 true s = (groups.toList, false, [])) : readV6 s = some (groups, []) := by
  unfold readV6
  rw [full]
  dsimp only
  rw [if_pos groups.length_toList, ofList?_toList]
  rfl

/-- Groups before and after the mark for zeros. -/
theorem readV6_of_zeros {groups : Groups} {s rest : List Char} {head tail : List UInt16} {dotted : Bool}
    (front : readGroups 8 true s = (head, false, ':' :: ':' :: rest)) (short : head.length < 8)
    (back : readGroups (8 - (head.length + 1)) true rest = (tail, dotted, []))
    (whole : groups.toList = head ++ List.replicate (8 - head.length - tail.length) 0 ++ tail) :
    readV6 s = some (groups, []) := by
  unfold readV6
  rw [front]
  dsimp only
  rw [if_neg (Nat.ne_of_lt short)]
  simp only [Bool.false_eq_true, if_false, expect_self, Option.bind_eq_bind, Option.bind_some, back,
    ← whole, ofList?_toList]
  rfl

theorem readV6_writeV6 (groups : Groups) : readV6 (writeV6 groups.toList) = some (groups, []) := by
  have eight := groups.length_toList
  unfold writeV6
  split
  · next a b c d mapped =>
    -- The fifth zero is followed by a group in full and by four octets.
    have back : readGroups 7 true ("ffff:".toList ++ writeV4 a b c d) =
        ([0xffff, pair a b, pair c d], true, []) := by
      have octets := readV4_all a b c d
      have group : "ffff:".toList ++ writeV4 a b c d = writeGroup 0xffff ++ ':' :: writeV4 a b c d := rfl
      rw [group, readGroups_step rfl (readV4_writeGroup _ (paused_colon _))
        (readGroup_writeGroup _ (paused_colon _)), readGroups]
      simp only [Bool.false_eq_true, if_false, expect_self]
      rw [if_pos (by decide), octets]
    refine readV6_of_zeros ((Ending.zeros _).stuck 8 true) (by decide) back ?_
    rw [mapped?_eq_some mapped]
    rfl
  · obtain ⟨within, split⟩ := longestZeros_spec groups.toList
    generalize longestZeros groups.toList = run at within split
    obtain ⟨start, length⟩ := run
    dsimp only at within split ⊢
    split
    · exact readV6_of_full (readGroups_all (Nat.le_of_eq eight))
    · have head : (groups.toList.take start).length = start := by
        rw [List.length_take]
        omega
      have tail : (groups.toList.drop (start + length)).length = 8 - (start + length) := by
        rw [List.length_drop, eight]
      refine readV6_of_zeros (readGroups_writeGroups (.zeros _) (by omega)) (by omega)
        (readGroups_all (by omega)) ?_
      rw [head, tail, show 8 - start - (8 - (start + length)) = length by omega]
      exact split

/-- No address with groups is taken for a dotted one. -/
theorem readV4_writeV6 (groups : Groups) : readV4 (writeV6 groups.toList) = none := by
  have behind : ∀ (gs : List UInt16) (rest : List Char),
      readV4 (writeGroups gs ++ ':' :: rest) = none := by
    intro gs rest
    cases gs with
    | nil => exact readV4_colon rest
    | cons g gs =>
      rw [writeGroups_cons, List.append_assoc]
      refine readV4_writeGroup g ?_
      cases gs with
      | nil => exact paused_colon _
      | cons => exact paused_colon _
  unfold writeV6
  split
  · exact readV4_colon _
  · dsimp only
    split
    · have eight := groups.length_toList
      cases hg : groups.toList with
      | nil =>
        rw [hg] at eight
        cases eight
      | cons g gs =>
        have read := readV4_writeGroup g (Ending.done.paused gs)
        rwa [List.append_nil, ← writeGroups_cons] at read
    · exact behind _ _

theorem ofChars?_toChars (a : Address) : ofChars? a.toChars = some a := by
  cases a with
  | v4 a b c d =>
    unfold ofChars? toChars
    rw [readV4_all]
    rfl
  | v6 groups =>
    unfold ofChars? toChars
    rw [readV4_writeV6]
    dsimp only
    rw [readV6_writeV6]
    rfl

/-- **The canonical text of an address reads back as the address.** -/
theorem read?_write (a : Address) : read? a.write = some a := by
  rw [read?, write, String.toList_ofList, ofChars?_toChars]

theorem write_injective {a b : Address} (h : a.write = b.write) : a = b :=
  Option.some.inj ((read?_write a).symm.trans ((congrArg read? h).trans (read?_write b)))

/-! ## Keys -/

theorem mem_writeV4 {a b c d : UInt8} {x : Char} (h : x ∈ writeV4 a b c d) : x = '.' ∨ Plain x := by
  have octet : ∀ o : UInt8, x ∈ writeOctet o → Plain x := fun o => plain_of_mem_toDigits (.inl rfl)
  simp only [writeV4, List.mem_append, List.mem_cons] at h
  rcases h with h | h | h | h | h | h | h
  all_goals first
    | exact .inl h
    | exact .inr (octet _ h)

theorem mem_writeGroups {groups : List UInt16} {x : Char} (h : x ∈ writeGroups groups) :
    x = ':' ∨ Plain x := by
  have group : ∀ g : UInt16, x ∈ writeGroup g → Plain x := fun g => plain_of_mem_toDigits (.inr rfl)
  cases groups with
  | nil => cases h
  | cons g groups =>
    rw [writeGroups_cons, following] at h
    rcases List.mem_append.1 h with h | h
    · exact .inr (group g h)
    · obtain ⟨g', -, h⟩ := List.mem_flatMap.1 h
      exact (List.mem_cons.1 h).imp id (group g')

/-- There are no brackets in an address. -/
theorem ne_bracket_of_mem_writeV6 {groups : List UInt16} {x : Char} (h : x ∈ writeV6 groups) :
    x ≠ '[' ∧ x ≠ ']' := by
  have known : x = ':' ∨ x = '.' ∨ x = 'f' ∨ Plain x := by
    unfold writeV6 at h
    split at h
    · rcases List.mem_append.1 h with h | h
      · have spelt : x ∈ [':', ':', 'f', 'f', 'f', 'f', ':'] := h
        simp only [List.mem_cons, List.not_mem_nil, or_false] at spelt
        tauto
      · exact .inr ((mem_writeV4 h).imp id .inr)
    · dsimp only at h
      split at h
      · exact (mem_writeGroups h).imp id fun h => .inr (.inr h)
      · simp only [List.mem_append, List.mem_cons] at h
        rcases h with h | h | h | h
        · exact (mem_writeGroups h).imp id fun h => .inr (.inr h)
        · exact .inl h
        · exact .inl h
        · exact (mem_writeGroups h).imp id fun h => .inr (.inr h)
  rcases known with rfl | rfl | rfl | plain
  · decide
  · decide
  · decide
  · exact plain.2.2

theorem colon_mem_writeV6 (groups : Groups) : ':' ∈ writeV6 groups.toList := by
  unfold writeV6
  split
  · exact List.mem_append_left _ (by decide)
  · dsimp only
    split
    · have eight := groups.length_toList
      match hg : groups.toList, eight with
      | g :: g' :: rest, _ =>
        rw [writeGroups]
        · simp
        · exact fun h => by cases h
    · simp

/-- Nothing that begins with a bracket is an address. -/
theorem ofChars?_bracket (rest : List Char) : ofChars? ('[' :: rest) = none := by
  have stops : ∀ {base}, Known base → Stops base ('[' :: rest) := fun known =>
    stops_cons (by rcases known with rfl | rfl <;> decide) rest
  have dotted : readV4 ('[' :: rest) = none := by
    refine readV4_of_undotted ?_
    rw [readDigits_of_stops (stops (.inl rfl))]
    rintro c hc
    obtain rfl := Option.some.inj hc
    decide
  have group : readGroup ('[' :: rest) = none := by
    unfold readGroup readNumber
    rw [readDigits_of_stops (stops (.inr rfl))]
    rfl
  have stuck : readGroups 8 true ('[' :: rest) = ([], false, '[' :: rest) :=
    readGroups_stuck fun body start => by cases start; exact ⟨dotted, group⟩
  have grouped : readV6 ('[' :: rest) = none := by
    unfold readV6
    rw [stuck]
    rfl
  unfold ofChars?
  rw [dotted]
  dsimp only
  rw [grouped]

end Address

namespace PeerKey

open Address

variable {p q : UInt16}

/-- The key of a dotted address, character by character. -/
theorem ofEndpoint_v4 (ported : p ≠ 0) (a b c d : UInt8) :
    (ofEndpoint (Address.v4 a b c d).write p).text.toList =
      writeV4 a b c d ++ ':' :: Nat.toDigits 10 p.toNat := by
  have chars : (Address.v4 a b c d).write.toList = writeV4 a b c d := String.toList_ofList
  have plain : (writeV4 a b c d).contains ':' = false := by
    rw [List.contains_eq_mem, decide_eq_false_iff_not]
    exact fun h => (mem_writeV4 h).elim (by decide) fun h => h.2.1 rfl
  unfold ofEndpoint
  dsimp only
  rw [if_neg ported, chars, plain, Bool.false_and, if_neg (by decide), String.toList_append,
    String.toList_append, chars, Decimal.write, Nat.toString_eq_repr, Nat.toList_repr]
  simp

/-- The key of an address with groups. -/
theorem ofEndpoint_v6 (ported : p ≠ 0) (groups : Groups) :
    (ofEndpoint (Address.v6 groups).write p).text.toList =
      '[' :: (writeV6 groups.toList ++ ']' :: ':' :: Nat.toDigits 10 p.toNat) := by
  have chars : (Address.v6 groups).write.toList = writeV6 groups.toList := String.toList_ofList
  have colon : (writeV6 groups.toList).contains ':' = true := by
    rw [List.contains_eq_mem, decide_eq_true_iff]
    exact colon_mem_writeV6 groups
  have open_ : ((writeV6 groups.toList).head? != some '[') = true := by
    rw [bne_iff_ne]
    exact fun h => (ne_bracket_of_mem_writeV6 (List.mem_of_head? h)).1 rfl
  unfold ofEndpoint
  dsimp only
  rw [if_neg ported, chars, colon, open_, Bool.true_and, if_pos rfl, String.toList_append,
    String.toList_append, String.toList_append, chars, Decimal.write, Nat.toString_eq_repr,
    Nat.toList_repr]
  simp

/-- With a port it is no address. -/
theorem read?_ofEndpoint (ported : p ≠ 0) (a : Address) :
    Address.read? (ofEndpoint a.write p).text = none := by
  rw [Address.read?]
  cases a with
  | v4 a b c d =>
    have read := readV4_writeV4 a b c d
      (stops_cons (digit?_of_separator (.inl rfl)).1 (Nat.toDigits 10 p.toNat))
    rw [ofEndpoint_v4 ported, ofChars?, read]
    rfl
  | v6 groups =>
    rw [ofEndpoint_v6 ported]
    exact ofChars?_bracket _

/-- Different ports are written differently. -/
theorem toDigits_inj {p q : UInt16} (h : Nat.toDigits 10 p.toNat = Nat.toDigits 10 q.toNat) : p = q := by
  have read : ∀ n, Nat.ofDigitChars 10 (Nat.toDigits 10 n) 0 = n := fun n =>
    Nat.ofDigitChars_toDigits (by decide) (by decide)
  exact UInt16.toNat_inj.1 ((read _).symm.trans ((congrArg (Nat.ofDigitChars 10 · 0) h).trans (read _)))

/-- What is written of a port is plain. -/
theorem plain_of_mem_port {x : Char} (h : x ∈ Nat.toDigits 10 p.toNat) : Plain x :=
  plain_of_mem_toDigits (.inl rfl) h

/-- The key of a dotted address begins with no bracket. -/
theorem dotted_ne_bracketed {a b c d : UInt8} {rest : List Char} :
    writeV4 a b c d ++ ':' :: Nat.toDigits 10 p.toNat ≠ '[' :: rest := by
  intro eq
  have among : '[' ∈ writeV4 a b c d ++ ':' :: Nat.toDigits 10 p.toNat := eq ▸ List.mem_cons_self
  rcases List.mem_append.1 among with h | h
  · exact (mem_writeV4 h).elim (by decide) fun h => h.2.2.1 rfl
  · exact (List.mem_cons.1 h).elim (by decide) fun h => (plain_of_mem_port h).2.2.1 rfl

/-- Dotted addresses with ports are taken apart at the colon. -/
theorem dotted_inj {a b c d a' b' c' d' : UInt8}
    (h : writeV4 a b c d ++ ':' :: Nat.toDigits 10 p.toNat =
      writeV4 a' b' c' d' ++ ':' :: Nat.toDigits 10 q.toNat) :
    Address.v4 a b c d = .v4 a' b' c' d' ∧ p = q := by
  have outside : ':' ∉ writeV4 a b c d := fun h => (mem_writeV4 h).elim (by decide) fun h => h.2.1 rfl
  have after : ':' ∉ Nat.toDigits 10 p.toNat := fun h => (plain_of_mem_port h).2.1 rfl
  obtain ⟨octets, -, ports⟩ := (List.append_cons_inj_of_notMem outside after).1 h
  exact ⟨Address.write_injective (congrArg String.ofList octets), toDigits_inj ports⟩

/-- Bracketed addresses with ports are taken apart at the second bracket. -/
theorem bracketed_inj {groups groups' : Groups}
    (h : '[' :: (writeV6 groups.toList ++ ']' :: ':' :: Nat.toDigits 10 p.toNat) =
      '[' :: (writeV6 groups'.toList ++ ']' :: ':' :: Nat.toDigits 10 q.toNat)) :
    Address.v6 groups = .v6 groups' ∧ p = q := by
  have outside : ']' ∉ writeV6 groups.toList := fun h => (ne_bracket_of_mem_writeV6 h).2 rfl
  have after : ']' ∉ ':' :: Nat.toDigits 10 p.toNat := fun h =>
    (List.mem_cons.1 h).elim (by decide) fun h => (plain_of_mem_port h).2.2.2 rfl
  obtain ⟨written, -, ports⟩ := (List.append_cons_inj_of_notMem outside after).1 (List.cons.inj h).2
  exact ⟨Address.write_injective (congrArg String.ofList written),
    toDigits_inj (List.cons.inj ports).2⟩

/-- With ports, written endpoints have one key each. -/
theorem endpoint_inj (hp : p ≠ 0) (hq : q ≠ 0) {a b : Address}
    (h : ofEndpoint a.write p = ofEndpoint b.write q) : a = b ∧ p = q := by
  have chars := congrArg (fun k : PeerKey => k.text.toList) h
  cases a with
  | v4 x y z w =>
    rw [ofEndpoint_v4 hp] at chars
    cases b with
    | v4 x' y' z' w' => exact dotted_inj (chars.trans (ofEndpoint_v4 hq x' y' z' w'))
    | v6 groups' => exact absurd (chars.trans (ofEndpoint_v6 hq groups')) dotted_ne_bracketed
  | v6 groups =>
    rw [ofEndpoint_v6 hp] at chars
    cases b with
    | v4 x' y' z' w' =>
      exact absurd (chars.trans (ofEndpoint_v4 hq x' y' z' w')).symm dotted_ne_bracketed
    | v6 groups' => exact bracketed_inj (chars.trans (ofEndpoint_v6 hq groups'))

/-- **Written endpoints have one key each.** -/
theorem ofEndpoint_write_inj {a b : Address} :
    ofEndpoint a.write p = ofEndpoint b.write q ↔ a = b ∧ p = q := by
  refine ⟨fun h => ?_, by rintro ⟨rfl, rfl⟩; rfl⟩
  have bare : ∀ a : Address, Address.read? (ofEndpoint a.write 0).text = some a := read?_write
  have texts := congrArg (fun k : PeerKey => Address.read? k.text) h
  by_cases hp : p = 0 <;> by_cases hq : q = 0
  · subst hp hq
    rw [bare, bare] at texts
    exact ⟨Option.some.inj texts, rfl⟩
  · subst hp
    rw [bare, read?_ofEndpoint hq] at texts
    cases texts
  · subst hq
    rw [bare, read?_ofEndpoint hp] at texts
    cases texts
  · exact endpoint_inj hp hq h

end PeerKey

end Roster
