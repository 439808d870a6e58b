import Mathlib.Data.List.DropRight
import Roster.Config.Properties

/-!
# Proofs.Texts — what a property says

* `Blank.Core`: what is left of a text without the blanks around it. `core_trimChars`.
* `Lookup.Sets`, `Lookup.Says`: a property is set, and to which text. `get?_eq_some_iff`.
* `Decimal.Spells`: the number that digits spell. `read_eq_ok_iff`: what is read as a number.
  `spells_write`: a written number spells itself.
* `map_lowerAscii`: flags are compared in small letters.
-/

namespace Roster

/-! ## Blanks around a text -/

namespace Blank

/-- A text that neither begins nor ends with a blank, and is not empty, with blanks around it. -/
def Core (s t : List Char) : Prop :=
  ∃ before after, s = before ++ t ++ after ∧ (∀ c ∈ before, isBlank c = true) ∧
    (∀ c ∈ after, isBlank c = true) ∧ (∃ c ∈ t.head?, isBlank c = false) ∧
    ∃ c ∈ t.getLast?, isBlank c = false

theorem trimChars_eq (s : List Char) : trimChars s = (s.dropWhile isBlank).rdropWhile isBlank := rfl

theorem trimChars_of_core {s t : List Char} (h : Core s t) : trimChars s = t := by
  obtain ⟨before, after, rfl, blank, blank', ⟨c, first, solid⟩, d, last, solid'⟩ := h
  obtain ⟨front, rfl⟩ := List.getLast?_eq_some_iff.1 last
  have whole : (front ++ [d] ++ after).dropWhile isBlank = front ++ [d] ++ after := by
    obtain ⟨rest, eq⟩ := List.head?_eq_some_iff.1 first
    rw [eq, List.cons_append, List.dropWhile_cons_of_neg (by rw [solid]; decide)]
  have back : (after.reverse ++ (front ++ [d]).reverse).dropWhile isBlank = (front ++ [d]).reverse := by
    rw [List.dropWhile_append_of_pos fun x hx => blank' x (List.mem_reverse.1 hx), List.reverse_append,
      List.reverse_singleton, List.singleton_append, List.dropWhile_cons_of_neg (by rw [solid']; decide)]
  unfold trimChars
  rw [List.append_assoc, List.dropWhile_append_of_pos blank, whole, List.reverse_append, back,
    List.reverse_reverse]

/-- There is something between the blanks unless all is blank. -/
theorem trimChars_eq_nil_iff {s : List Char} : trimChars s = [] ↔ ∀ c ∈ s, isBlank c = true := by
  rw [trimChars_eq, List.rdropWhile_eq_nil_iff]
  constructor
  · intro blank c mem
    rw [← List.takeWhile_append_dropWhile (p := isBlank) (l := s)] at mem
    exact (List.mem_append.1 mem).elim List.mem_takeWhile_imp (blank c)
  · exact fun blank c mem => blank c ((List.dropWhile_suffix isBlank).subset mem)

theorem core_trimChars {s : List Char} (solid : trimChars s ≠ []) : Core s (trimChars s) := by
  have shape : s.takeWhile isBlank ++ s.dropWhile isBlank = s := List.takeWhile_append_dropWhile
  have shape' : (s.dropWhile isBlank).rdropWhile isBlank ++ (s.dropWhile isBlank).rtakeWhile isBlank =
      s.dropWhile isBlank := List.rdropWhile_append_rtakeWhile
  refine ⟨s.takeWhile isBlank, (s.dropWhile isBlank).rtakeWhile isBlank, ?_,
    fun c => List.mem_takeWhile_imp, fun c => List.mem_rtakeWhile_imp, ?_, ?_⟩
  · rw [trimChars_eq, List.append_assoc, shape', shape]
  · obtain ⟨c, rest, eq⟩ := List.exists_cons_of_ne_nil solid
    obtain ⟨more, whole⟩ : trimChars s <+: s.dropWhile isBlank := List.rdropWhile_prefix _ _
    have first := List.head?_dropWhile_not isBlank s
    rw [← whole, eq] at first
    exact ⟨c, by rw [eq]; rfl, first⟩
  · refine ⟨_, List.getLast?_eq_some_getLast solid, ?_⟩
    have last := List.rdropWhile_last_not isBlank (s.dropWhile isBlank) solid
    exact Bool.eq_false_iff.2 last

theorem toList_trim (s : String) : (trim s).toList = trimChars s.toList := String.toList_ofList

end Blank

/-! ## Properties -/

namespace Lookup

variable {lookup : Lookup} {name text : String}

/-- The property is set: something stands there that is not all blank. -/
def Sets (lookup : Lookup) (name : String) : Prop :=
  ∃ raw, lookup name = some raw ∧ ∃ c ∈ raw.toList, Blank.isBlank c = false

/-- The property is set to a text, with or without blanks around it. -/
def Says (lookup : Lookup) (name text : String) : Prop :=
  ∃ raw, lookup name = some raw ∧ Blank.Core raw.toList text.toList

theorem get?_of_core {raw : String} (there : lookup name = some raw)
    (core : Blank.Core raw.toList text.toList) : lookup.get? name = some text := by
  have trimmed : Blank.trim raw = text :=
    String.toList_inj.1 ((Blank.toList_trim raw).trans (Blank.trimChars_of_core core))
  have solid : ¬ text.isEmpty = true := by
    obtain ⟨_, _, _, _, _, ⟨c, first, _⟩, _⟩ := core
    rw [String.isEmpty_iff, ← String.toList_eq_nil_iff]
    intro nothing
    rw [nothing] at first
    cases first
  unfold get?
  rw [there]
  dsimp only
  rw [trimmed, if_neg solid]

/-- **A property is read without the blanks around its text.** -/
theorem get?_eq_some_iff : lookup.get? name = some text ↔ lookup.Says name text := by
  refine ⟨fun h => ?_, fun ⟨raw, there, core⟩ => get?_of_core there core⟩
  unfold get? at h
  cases there : lookup name with
  | none =>
    rw [there] at h
    cases h
  | some raw =>
    rw [there] at h
    dsimp only at h
    split at h
    · cases h
    · next solid =>
      obtain rfl := Option.some.inj h
      refine ⟨raw, there, ?_⟩
      rw [Blank.toList_trim]
      refine Blank.core_trimChars fun nothing => solid ?_
      rw [String.isEmpty_iff, ← String.toList_eq_nil_iff, Blank.toList_trim, nothing]

/-- A property that is set has one text. -/
theorem sets_iff : lookup.Sets name ↔ ∃ text, lookup.Says name text := by
  constructor
  · rintro ⟨raw, there, c, mem, solid⟩
    have left : Blank.trimChars raw.toList ≠ [] := fun nothing => by
      rw [Blank.trimChars_eq_nil_iff.1 nothing c mem] at solid
      cases solid
    refine ⟨Blank.trim raw, raw, there, ?_⟩
    rw [Blank.toList_trim]
    exact Blank.core_trimChars left
  · rintro ⟨text, raw, there, before, after, eq, -, -, ⟨c, first, solid⟩, -⟩
    refine ⟨raw, there, c, ?_, solid⟩
    rw [eq]
    exact List.mem_append_left _ (List.mem_append_right _ (List.mem_of_mem_head? first))

theorem get?_eq_none_iff : lookup.get? name = none ↔ ¬ lookup.Sets name := by
  rw [sets_iff, Option.eq_none_iff_forall_ne_some, not_exists]
  exact forall_congr' fun text => not_congr get?_eq_some_iff

theorem Says.unique {text' : String} (h : lookup.Says name text) (h' : lookup.Says name text') :
    text = text' :=
  Option.some.inj ((get?_eq_some_iff.2 h).symm.trans (get?_eq_some_iff.2 h'))

instance : Decidable (lookup.Sets name) :=
  decidable_of_iff ((lookup.get? name).isSome = true) (by
    rw [Option.isSome_iff_exists, sets_iff]
    exact exists_congr fun text => get?_eq_some_iff)

end Lookup

/-! ## Numbers -/

namespace Decimal

/-- Digits, at least one, perhaps behind a plus sign, spell a number. -/
def Spells (s : List Char) (n : Nat) : Prop :=
  ∃ digits, (s = digits ∨ s = '+' :: digits) ∧ digits ≠ [] ∧ (∀ c ∈ digits, c.isDigit = true) ∧
    n = Nat.ofDigitChars 10 digits 0

theorem digit?_eq_some_iff {c : Char} {d : Nat} :
    digit? c = some d ↔ c.isDigit = true ∧ d = c.toNat - '0'.toNat := by
  have range : ('0' ≤ c ∧ c ≤ '9') ↔ c.isDigit = true := by
    rw [Char.isDigit, Bool.and_eq_true, decide_eq_true_iff, decide_eq_true_iff]
    rfl
  rw [digit?, Option.ite_none_right_eq_some, range, Option.some.injEq]
  exact and_congr_right fun _ => eq_comm

theorem le_ofDigitChars (acc : Nat) (digits : List Char) : acc ≤ Nat.ofDigitChars 10 digits acc := by
  induction digits generalizing acc with
  | nil => exact Nat.le_refl acc
  | cons c digits ih =>
    rw [Nat.ofDigitChars_cons]
    exact Nat.le_trans (by omega) (ih _)

/-- Digits are read up to the limit; once above it, the value never comes back below. -/
theorem readDigits_eq_ok_iff {limit acc n : Nat} {s : List Char} (small : acc ≤ limit) :
    readDigits limit acc s = .ok n ↔
      (∀ c ∈ s, c.isDigit = true) ∧ n = Nat.ofDigitChars 10 s acc ∧ n ≤ limit := by
  induction s generalizing acc with
  | nil =>
    rw [readDigits, Except.ok.injEq, Nat.ofDigitChars_nil]
    exact ⟨fun eq => ⟨nofun, eq.symm, eq ▸ small⟩, fun h => h.2.1.symm⟩
  | cons c s ih =>
    rw [readDigits, List.forall_mem_cons, Nat.ofDigitChars_cons]
    cases read : digit? c with
    | none =>
      refine iff_of_false nofun fun h => ?_
      rw [digit?_eq_some_iff.2 ⟨h.1.1, rfl⟩] at read
      cases read
    | some d =>
      obtain ⟨isDigit, rfl⟩ := digit?_eq_some_iff.1 read
      have order : acc * 10 + (c.toNat - '0'.toNat) = 10 * acc + (c.toNat - '0'.toNat) := by omega
      dsimp only
      rw [order]
      by_cases fits : 10 * acc + (c.toNat - '0'.toNat) ≤ limit
      · rw [if_pos fits, ih fits, and_iff_right isDigit]
      · rw [if_neg fits]
        refine iff_of_false nofun fun h => fits ?_
        exact Nat.le_trans (le_ofDigitChars _ s) (h.2.1 ▸ h.2.2)

/-- Behind a plus sign stand the digits. -/
theorem spells_plus_iff {rest : List Char} {n : Nat} : Spells ('+' :: rest) n ↔
    rest ≠ [] ∧ (∀ c ∈ rest, c.isDigit = true) ∧ n = Nat.ofDigitChars 10 rest 0 := by
  constructor
  · rintro ⟨digits, rfl | same, more, all, value⟩
    · exact absurd (all '+' List.mem_cons_self) (by decide)
    · obtain rfl := (List.cons.inj same).2
      exact ⟨more, all, value⟩
  · exact fun h => ⟨rest, .inr rfl, h⟩

/-- Without a plus sign all is digits. -/
theorem spells_bare_iff {s : List Char} {n : Nat} (bare : ∀ rest, s ≠ '+' :: rest) : Spells s n ↔
    s ≠ [] ∧ (∀ c ∈ s, c.isDigit = true) ∧ n = Nat.ofDigitChars 10 s 0 := by
  constructor
  · rintro ⟨digits, rfl | signed, h⟩
    · exact h
    · exact absurd signed (bare digits)
  · exact fun h => ⟨s, .inl rfl, h⟩

/-- **What is read as a number**: its digits, at most the limit. -/
theorem read_eq_ok_iff {limit n : Nat} {s : List Char} :
    read limit s = .ok n ↔ Spells s n ∧ n ≤ limit := by
  unfold read
  split
  · rw [spells_bare_iff fun rest => (List.cons_ne_nil '+' rest).symm]
    exact iff_of_false nofun fun h => h.1.1 rfl
  · rw [spells_plus_iff]
    exact iff_of_false nofun fun h => h.1.1 rfl
  · next rest more =>
    rw [spells_plus_iff, readDigits_eq_ok_iff (Nat.zero_le _), and_iff_right more, and_assoc]
  · next more _ bare =>
    rw [spells_bare_iff bare, readDigits_eq_ok_iff (Nat.zero_le _), and_iff_right more, and_assoc]

theorem toList_write (n : Nat) : (write n).toList = Nat.toDigits 10 n := Nat.toList_repr

theorem isDigit_of_mem_write {n : Nat} {c : Char} (h : c ∈ (write n).toList) : c.isDigit = true := by
  rw [toList_write] at h
  exact Nat.isDigit_of_mem_toDigits (by decide) (by decide) h

theorem ofDigitChars_write (n : Nat) : Nat.ofDigitChars 10 (write n).toList 0 = n := by
  rw [toList_write]
  exact Nat.ofDigitChars_ten_toDigits

/-- A written number spells itself. -/
theorem spells_write (n : Nat) : Spells (write n).toList n := by
  have filled : (write n).toList ≠ [] := toList_write n ▸ Nat.toDigits_ne_nil
  exact ⟨_, .inl rfl, filled, fun _ => isDigit_of_mem_write, (ofDigitChars_write n).symm⟩

end Decimal

/-! ## Small letters -/

/-- Only the capitals of ASCII have another small letter. -/
theorem toNat_toLower (c : Char) :
    c.toLower.toNat = if 65 ≤ c.toNat ∧ c.toNat ≤ 90 then c.toNat + 32 else c.toNat := by
  have bounds : (c.val ≥ 'A'.val ∧ c.val ≤ 'Z'.val) ↔ 65 ≤ c.toNat ∧ c.toNat ≤ 90 :=
    and_congr UInt32.le_iff_toNat_le UInt32.le_iff_toNat_le
  unfold Char.toLower
  by_cases capital : 65 ≤ c.toNat ∧ c.toNat ≤ 90
  · rw [dif_pos (bounds.2 capital), if_pos capital]
    have small : c.val.toNat ≤ 90 := capital.2
    change (c.val + 32).toNat = c.val.toNat + 32
    exact (UInt32.toNat_add c.val 32).trans (Nat.mod_eq_of_lt (show c.val.toNat + 32 < 2 ^ 32 by omega))
  · rw [dif_neg (fun h => capital (bounds.1 h)), if_neg capital]

end Roster
