import Roster.Json.Decode
import Roster.Json.Value
import Roster.Stored.Record
import Roster.Proofs.Spelling
import Roster.Proofs.Texts

/-!
# Proofs.JsonText — what is written as JSON reads back

* `utf8`, `bytesOf_eq`: the bytes of a text are those of its characters.
* `Denotes`: the bytes between two quotes stand for others. `denotes_written`: what is written for a
  text stands for it. `Denotes.unescape`, `Denotes.scan`: so it is decoded, and so it is read.
* `Value.tokens`, `Value.tree`: the tokens and the tree of a value.
* `Settles`: a reader that takes what comes after a value as if its last token were complete.
  `Value.scan_text`, `Value.build_tokens`: the text gives the tokens, the tokens the tree.
* `ofBytes?_text`: so the text gives the tree. `text?_string`, `natUpTo?_nat`: so does a part of it
  give what was written.
-/

namespace Roster

namespace Json

/-! ## Bytes -/

/-- The bytes of characters. -/
def utf8 (s : List Char) : List UInt8 := s.flatMap String.utf8EncodeChar

@[simp] theorem utf8_nil : utf8 [] = [] := rfl

theorem utf8_cons (c : Char) (s : List Char) : utf8 (c :: s) = String.utf8EncodeChar c ++ utf8 s := rfl

theorem utf8_append (s t : List Char) : utf8 (s ++ t) = utf8 s ++ utf8 t := List.flatMap_append

theorem toList_loop (bytes : ByteArray) (i : Nat) (read : List UInt8) :
    ByteArray.toList.loop bytes i read = read.reverse ++ bytes.data.toList.drop i := by
  fun_induction ByteArray.toList.loop bytes i read with
  | case1 i read h ih =>
    have inside : i < bytes.data.toList.length := by simpa using h
    rw [ih, List.drop_eq_getElem_cons inside]
    simp [ByteArray.get!, h]
  | case2 i read h =>
    rw [List.drop_eq_nil_of_le (by simpa using Nat.le_of_not_lt h), List.append_nil]

theorem bytesOf_eq (s : String) : bytesOf s = utf8 s.toList := by
  rw [bytesOf, String.toUTF8, ← String.utf8Encode_toList, List.utf8Encode, ByteArray.toList, toList_loop]
  simp [utf8]

theorem fromUTF8?_utf8 (s : String) : String.fromUTF8? ⟨(utf8 s.toList).toArray⟩ = some s := by
  have bytes : (⟨(utf8 s.toList).toArray⟩ : ByteArray) = s.toByteArray := by
    rw [← String.utf8Encode_toList, List.utf8Encode, ByteArray.ext_iff]
    simp [utf8]
  rw [bytes, String.fromUTF8?, dif_pos s.isValidUTF8]
  rfl

theorem utf8EncodeChar_of_ascii {c : Char} (h : c.toNat ≤ 127) :
    String.utf8EncodeChar c = [UInt8.ofNat c.toNat] := if_pos h

theorem toNat_byte {n : Nat} (h : n < 256) : (UInt8.ofNat n).toNat = n := by
  rw [UInt8.toNat_ofNat', Nat.mod_eq_of_lt h]

/-- A character of ASCII is its byte. -/
theorem ofNat_toNat_byte {c : Char} (h : c.toNat ≤ 127) :
    Char.ofNat (UInt8.ofNat c.toNat).toNat = c := by
  rw [toNat_byte (by omega), Char.ofNat_toNat]

/-- The byte of a digit. -/
def digitByte (d : Nat) : UInt8 := UInt8.ofNat (Nat.digitChar d).toNat

theorem utf8EncodeChar_digit {d : Nat} (h : d < 16) :
    String.utf8EncodeChar (Nat.digitChar d) = [digitByte d] := by
  have ascii : ∀ d < 16, (Nat.digitChar d).toNat ≤ 127 := by decide
  exact utf8EncodeChar_of_ascii (ascii d h)

/-! ## Strings -/

/-- The bytes between two quotes stand for others. -/
inductive Denotes : List UInt8 → List UInt8 → Prop where
  | nil : Denotes [] []
  /-- A byte that stands for itself. -/
  | plain {b : UInt8} {written meant : List UInt8} (printed : ¬ b < 0x20) (bare : b ≠ 0x22)
      (straight : b ≠ 0x5C) (h : Denotes written meant) : Denotes (b :: written) (b :: meant)
  /-- An escape of one character. -/
  | escape {b : UInt8} {written meant : List UInt8} (known : isEscape b = true)
      (h : Denotes written meant) : Denotes (0x5C :: b :: written) (escapeValue b :: meant)
  /-- An escape by the number of a character below the surrogates. -/
  | number {a b c d : UInt8} {written meant : List UInt8}
      (digits : ∀ x ∈ [a, b, c, d], isHexDigit x = true) (low : hexUnit a b c d < 0xD800)
      (h : Denotes written meant) :
      Denotes (0x5C :: 0x75 :: a :: b :: c :: d :: written) (encodeChar (hexUnit a b c d) ++ meant)

theorem Denotes.append {written meant written' meant' : List UInt8} (h : Denotes written meant)
    (h' : Denotes written' meant') : Denotes (written ++ written') (meant ++ meant') := by
  induction h with
  | nil => exact h'
  | plain printed bare straight _ ih => exact .plain printed bare straight ih
  | escape known _ ih => exact .escape known ih
  | number digits low _ ih =>
    rw [List.append_assoc]
    exact .number digits low ih

theorem denotes_plain {bytes : List UInt8}
    (plain : ∀ b ∈ bytes, ¬ b < 0x20 ∧ b ≠ 0x22 ∧ b ≠ 0x5C) : Denotes bytes bytes := by
  induction bytes with
  | nil => exact .nil
  | cons b bytes ih =>
    obtain ⟨printed, bare, straight⟩ := plain b List.mem_cons_self
    exact .plain printed bare straight (ih fun b hb => plain b (List.mem_cons_of_mem _ hb))

/-- The bytes of a character beyond ASCII are beyond ASCII. -/
theorem mem_utf8EncodeChar {c : Char} (beyond : 127 < c.toNat) {b : UInt8}
    (h : b ∈ String.utf8EncodeChar c) : 127 < b.toNat := by
  have byte : ∀ n, 127 < n → n < 256 → 127 < (UInt8.ofNat n).toNat := fun n low high => by
    rwa [toNat_byte high]
  unfold String.utf8EncodeChar at h
  change b ∈ if c.toNat ≤ 127 then _ else _ at h
  rw [if_neg (Nat.not_le_of_lt beyond)] at h
  split at h
  · simp only [List.mem_cons, List.not_mem_nil, or_false] at h
    rcases h with rfl | rfl <;> exact byte _ (by omega) (by omega)
  · split at h
    all_goals
      simp only [List.mem_cons, List.not_mem_nil, or_false] at h
    · rcases h with rfl | rfl | rfl <;> exact byte _ (by omega) (by omega)
    · rcases h with rfl | rfl | rfl | rfl <;> exact byte _ (by omega) (by omega)

/-- Two digits are the number of a control character. -/
theorem number_of_control : ∀ n < 0x20,
    isHexDigit (digitByte (n / 16)) = true ∧ isHexDigit (digitByte (n % 16)) = true ∧
    hexUnit 0x30 0x30 (digitByte (n / 16)) (digitByte (n % 16)) = n := by
  decide

/-- The escape of a control character stands for it. -/
theorem denotes_control {c : Char} (control : c.toNat < 0x20) :
    Denotes (utf8 ['\\', 'u', '0', '0', Nat.digitChar (c.toNat / 16), Nat.digitChar (c.toNat % 16)])
      (String.utf8EncodeChar c) := by
  obtain ⟨high, low, worth⟩ := number_of_control c.toNat control
  have number := Denotes.number (a := 0x30) (b := 0x30) (by simpa using ⟨by decide, high, low⟩)
    (by omega) .nil
  rw [worth, encodeChar, Char.ofNat_toNat, List.append_nil] at number
  have written : utf8 ['\\', 'u', '0', '0', Nat.digitChar (c.toNat / 16),
      Nat.digitChar (c.toNat % 16)] = [0x5C, 0x75, 0x30, 0x30, digitByte (c.toNat / 16),
        digitByte (c.toNat % 16)] := by
    simp only [utf8_cons, utf8EncodeChar_digit (show c.toNat / 16 < 16 by omega),
      utf8EncodeChar_digit (show c.toNat % 16 < 16 by omega)]
    rfl
  exact written ▸ number

/-- The bytes of a character without an escape stand for themselves. -/
theorem plain_of_printed {c : Char} (printed : ¬ c.toNat < 0x20) (quote : c ≠ '"') (slash : c ≠ '\\')
    {b : UInt8} (hb : b ∈ String.utf8EncodeChar c) : ¬ b < 0x20 ∧ b ≠ 0x22 ∧ b ≠ 0x5C := by
  by_cases ascii : c.toNat ≤ 127
  · obtain rfl := List.mem_singleton.1 (utf8EncodeChar_of_ascii ascii ▸ hb)
    refine ⟨?_, fun h => quote ?_, fun h => slash ?_⟩
    · rw [UInt8.lt_iff_toNat_lt, toNat_byte (by omega)]
      exact printed
    · rw [← ofNat_toNat_byte ascii, h]
      rfl
    · rw [← ofNat_toNat_byte ascii, h]
      rfl
  · -- all bytes of the character are above those three
    have beyond := mem_utf8EncodeChar (Nat.lt_of_not_le ascii) hb
    refine ⟨fun h => ?_, ?_, ?_⟩
    · exact absurd (Nat.lt_trans beyond (UInt8.lt_iff_toNat_lt.1 h)) (by decide)
    · rintro rfl
      exact absurd beyond (by decide)
    · rintro rfl
      exact absurd beyond (by decide)

/-- What is written for a character stands for it. -/
theorem denotes_quoteChar (c : Char) : Denotes (utf8 (quoteChar c)) (String.utf8EncodeChar c) := by
  unfold quoteChar
  split
  · exact .escape (by decide) .nil
  · exact .escape (by decide) .nil
  · exact .escape (by decide) .nil
  · exact .escape (by decide) .nil
  · exact .escape (by decide) .nil
  · exact .escape (by decide) .nil
  · exact .escape (by decide) .nil
  · next quote slash _ _ _ _ _ =>
    split
    · next control => exact denotes_control control
    · next printed =>
      rw [utf8_cons, utf8_nil, List.append_nil]
      exact denotes_plain fun b => plain_of_printed printed quote slash

/-- **What is written for a text stands for it.** -/
theorem denotes_written (s : List Char) : Denotes (utf8 (s.flatMap quoteChar)) (utf8 s) := by
  induction s with
  | nil => exact .nil
  | cons c s ih =>
    rw [List.flatMap_cons, utf8_append, utf8_cons]
    exact (denotes_quoteChar c).append ih

/-! ### Decoding -/

/-- A byte that is no backslash stands for itself. -/
theorem unescape_plain {b : UInt8} (straight : b ≠ 0x5C) (rest : List UInt8) :
    unescape (b :: rest) = (unescape rest).map (b :: ·) := by
  conv_lhs => rw [unescape.eq_def]
  split <;> simp_all

/-- A backslash with a character stands for another. -/
theorem unescape_escape {b : UInt8} (known : isEscape b = true) (rest : List UInt8) :
    unescape (0x5C :: b :: rest) = (unescape rest).map (escapeValue b :: ·) := by
  have other : b ≠ 0x75 := by
    rintro rfl
    revert known
    decide
  conv_lhs => rw [unescape.eq_def]
  -- the two escapes by number are out, since they start with another byte
  split
  · next same => cases same
  · next same => exact absurd (List.cons.inj (List.cons.inj same).2).1 other
  · next same => exact absurd (List.cons.inj (List.cons.inj same).2).1 other
  · next same =>
    obtain ⟨rfl, rfl⟩ := List.cons.inj (List.cons.inj same).2
    rfl
  · next single same => exact (single b rest (List.cons.inj same).1.symm (List.cons.inj same).2.symm).elim

/-- The number of a character below the surrogates stands for it, whatever comes next. -/
theorem unescape_number {a b c d : UInt8} (low : hexUnit a b c d < 0xD800) (rest : List UInt8) :
    unescape (0x5C :: 0x75 :: a :: b :: c :: d :: rest) =
      (unescape rest).map (encodeChar (hexUnit a b c d) ++ ·) := by
  conv_lhs => rw [unescape.eq_def]
  split
  · next same => cases same
  · next same =>
    -- another escape by number comes next, but the two are no pair of surrogates
    simp only [List.cons.injEq, true_and] at same
    obtain ⟨rfl, rfl, rfl, rfl, rfl⟩ := same
    dsimp only
    rw [if_neg (by omega), if_neg (by omega)]
  · next same =>
    simp only [List.cons.injEq, true_and] at same
    obtain ⟨rfl, rfl, rfl, rfl, rfl⟩ := same
    dsimp only
    rw [if_neg (by omega)]
  · next unit same =>
    obtain ⟨rfl, rfl⟩ := List.cons.inj (List.cons.inj same).2
    exact (unit a b c d rest rfl rfl).elim
  · next single same => exact (single _ _ (List.cons.inj same).1.symm (List.cons.inj same).2.symm).elim

/-- **What bytes stand for is what they are decoded to.** -/
theorem Denotes.unescape {written meant : List UInt8} (h : Denotes written meant) :
    Json.unescape written = some meant := by
  induction h with
  | nil => rfl
  | plain printed bare straight _ ih =>
    rw [unescape_plain straight, ih]
    rfl
  | escape known _ ih =>
    rw [unescape_escape known, ih]
    rfl
  | number digits low _ ih =>
    rw [unescape_number low, ih]
    rfl

/-- The bytes that are written for a text, without the quotes. -/
def written (s : String) : List UInt8 := utf8 (s.toList.flatMap quoteChar)

theorem decodeString_written (s : String) : decodeString (written s) = some s := by
  rw [decodeString, written, (denotes_written s.toList).unescape]
  exact fromUTF8?_utf8 s

/-! ## Reading tokens -/

/-- The reader after bytes. -/
def scan (l : Lexer) (bytes : List UInt8) : Option Lexer := bytes.foldlM Lexer.feed l

theorem scan_append (l : Lexer) (s t : List UInt8) :
    scan l (s ++ t) = (scan l s).bind (scan · t) := List.foldlM_append

theorem scan_cons {m m' : Mode} {b : UInt8} {new : List Token} (h : m.step b = some (new, m'))
    (tokens : List Token) (rest : List UInt8) :
    scan ⟨m, tokens⟩ (b :: rest) = scan ⟨m', new.reverse ++ tokens⟩ rest := by
  have fed : Lexer.feed ⟨m, tokens⟩ b = some ⟨m', new.reverse ++ tokens⟩ := by
    unfold Lexer.feed
    dsimp only
    rw [h]
    rfl
  rw [scan, List.foldlM_cons, fed]
  rfl

theorem step_plain {b : UInt8} (printed : ¬ b < 0x20) (bare : b ≠ 0x22) (straight : b ≠ 0x5C)
    (read : List UInt8) : Mode.step (.string read) b = some ([], .string (b :: read)) := by
  unfold Mode.step
  dsimp only
  rw [if_neg (by simpa using bare), if_neg (by simpa using straight), if_neg printed]

theorem step_escape {b : UInt8} (known : isEscape b = true) (read : List UInt8) :
    Mode.step (.escape read) b = some ([], .string (b :: read)) := by
  have other : b ≠ 0x75 := by
    rintro rfl
    revert known
    decide
  unfold Mode.step
  dsimp only
  rw [if_neg (by simpa using other), if_pos known]

theorem step_hex {b : UInt8} (digit : isHexDigit b = true) (left : Nat) (read : List UInt8) :
    Mode.step (.hex (left + 2) read) b = some ([], .hex (left + 1) (b :: read)) := by
  unfold Mode.step
  dsimp only
  rw [if_neg (by simp [digit]), if_neg (by omega)]
  rfl

theorem step_last_hex {b : UInt8} (digit : isHexDigit b = true) (read : List UInt8) :
    Mode.step (.hex 1 read) b = some ([], .string (b :: read)) := by
  unfold Mode.step
  dsimp only
  rw [if_neg (by simp [digit]), if_pos (Nat.le_refl 1)]

/-- **Bytes that stand for others are read as part of a string.** -/
theorem Denotes.scan {written meant : List UInt8} (h : Denotes written meant) (read : List UInt8)
    (tokens : List Token) :
    Json.scan ⟨.string read, tokens⟩ written = some ⟨.string (written.reverse ++ read), tokens⟩ := by
  induction h generalizing read with
  | nil => rfl
  | plain printed bare straight _ ih =>
    rw [scan_cons (step_plain printed bare straight read)]
    simpa using ih _
  | escape known _ ih =>
    rw [scan_cons rfl, scan_cons (step_escape known _)]
    simpa using ih _
  | @number a b c d written meant digits low _ ih =>
    rw [scan_cons rfl, scan_cons rfl, scan_cons (step_hex (digits a (by simp)) 2 _),
      scan_cons (step_hex (digits b (by simp)) 1 _), scan_cons (step_hex (digits c (by simp)) 0 _),
      scan_cons (step_last_hex (digits d (by simp)) _)]
    simpa using ih _

/-- **A quoted text is read as one token.** -/
theorem scan_quote (s : String) (tokens : List Token) :
    scan ⟨.between, tokens⟩ (utf8 (quote s).toList) =
      some ⟨.between, .string (written s) :: tokens⟩ := by
  have bytes : utf8 (quote s).toList = 0x22 :: (written s ++ [0x22]) := by
    rw [quote, String.toList_ofList, List.cons_append, utf8_cons, utf8_append]
    rfl
  have body : scan ⟨.string [], tokens⟩ (written s) = some ⟨.string (written s).reverse, tokens⟩ := by
    simpa [written] using (denotes_written s.toList).scan [] tokens
  have last : Mode.step (.string (written s).reverse) 0x22 =
      some ([.string (written s).reverse.reverse], .between) := rfl
  rw [bytes, scan_cons rfl, scan_append, List.reverse_nil, List.nil_append, body, Option.bind_some,
    scan_cons last, List.reverse_reverse]
  rfl

/-- The reader takes what comes after a value as if its last token were complete. -/
structure Settles (l : Lexer) (tokens : List Token) : Prop where
  comma : l.feed 0x2C = some ⟨.between, .comma :: tokens⟩
  close : l.feed 0x7D = some ⟨.between, .endObject :: tokens⟩
  finish : l.mode.finish.map (·.reverse ++ l.tokens) = some tokens

theorem Settles.scan_comma {l : Lexer} {tokens : List Token} (h : Settles l tokens)
    (rest : List UInt8) : scan l (0x2C :: rest) = scan ⟨.between, .comma :: tokens⟩ rest := by
  rw [scan, List.foldlM_cons, h.comma]
  rfl

theorem Settles.scan_close {l : Lexer} {tokens : List Token} (h : Settles l tokens) :
    scan l [0x7D] = some ⟨.between, .endObject :: tokens⟩ := by
  rw [scan, List.foldlM_cons, h.close]
  rfl

theorem settles_between (tokens : List Token) : Settles ⟨.between, tokens⟩ tokens := ⟨rfl, rfl, rfl⟩

/-- A whole number is complete. -/
theorem settles_number {state : Numeral} (h : state = .zero ∨ state = .whole) (read : List UInt8)
    (tokens : List Token) :
    Settles ⟨.number state read, tokens⟩ (.number read.reverse :: tokens) := by
  rcases h with rfl | rfl <;> exact ⟨rfl, rfl, rfl⟩

theorem utf8_digits {digits : List Nat} (below : ∀ d ∈ digits, d < 10) :
    utf8 (digits.map Nat.digitChar) = digits.map digitByte := by
  induction digits with
  | nil => rfl
  | cons d digits ih =>
    have digit : d < 16 := Nat.lt_trans (below d List.mem_cons_self) (by decide)
    rw [List.map_cons, utf8_cons, utf8EncodeChar_digit digit,
      ih fun d hd => below d (List.mem_cons_of_mem _ hd)]
    rfl

theorem scan_more_digits {digits : List Nat} (below : ∀ d ∈ digits, d < 10) (read : List UInt8)
    (tokens : List Token) : scan ⟨.number .whole read, tokens⟩ (digits.map digitByte) =
      some ⟨.number .whole ((digits.map digitByte).reverse ++ read), tokens⟩ := by
  induction digits generalizing read with
  | nil => rfl
  | cons d digits ih =>
    have goesOn : ∀ d < 10, Numeral.next? .whole (digitByte d) = some .whole := by decide
    have step : Mode.step (.number .whole read) (digitByte d) =
        some ([], .number .whole (digitByte d :: read)) := by
      unfold Mode.step
      dsimp only
      rw [goesOn d (below d List.mem_cons_self)]
    rw [List.map_cons, scan_cons step]
    simpa using ih (fun d hd => below d (List.mem_cons_of_mem _ hd)) (digitByte d :: read)

/-- **The digits of a number are read as one token**, which ends with what comes after it. -/
theorem scan_digits (n : Nat) (tokens : List Token) :
    ∃ l, scan ⟨.between, tokens⟩ (utf8 (Decimal.write n).toList) = some l ∧
      Settles l (.number (utf8 (Decimal.write n).toList) :: tokens) := by
  obtain ⟨digits, h⟩ := Address.exists_numeral (.inl rfl) n
  have bytes : utf8 (Decimal.write n).toList = digits.map digitByte := by
    rw [← utf8_digits h.below, ← h.written, Decimal.toList_write]
  rw [bytes]
  cases digits with
  | nil => exact absurd h.written Nat.toDigits_ne_nil
  | cons d digits =>
    have starts : ∀ d < 10, Mode.start (digitByte d) =
        some ([], .number (if d = 0 then .zero else .whole) [digitByte d]) := by decide
    have step : Mode.step .between (digitByte d) = _ := starts d (h.below d List.mem_cons_self)
    rw [List.map_cons, scan_cons step]
    -- behind a zero no digit may come; a written number has one only if it is zero
    by_cases zero : d = 0
    · obtain rfl : digits = [] := by simpa using h.leading (by rw [zero]; rfl)
      rw [if_pos zero]
      exact ⟨_, rfl, settles_number (.inl rfl) _ _⟩
    · have more := scan_more_digits (fun d hd => h.below d (List.mem_cons_of_mem _ hd))
        [digitByte d] tokens
      rw [if_neg zero]
      refine ⟨_, more, ?_⟩
      simpa using settles_number (.inr rfl) ((digits.map digitByte).reverse ++ [digitByte d]) tokens

/-! ## Values -/

namespace Value

mutual

/-- The tokens of a value. -/
def tokens : Value → List Token
  | null => [.null]
  | bool value => [.bool value]
  | nat n => [.number (utf8 (Decimal.write n).toList)]
  | string s => [.string (written s)]
  | object members => .beginObject :: membersTokens members ++ [.endObject]

/-- The tokens of members between commas. -/
def membersTokens : List (String × Value) → List Token
  | [] => []
  | [(key, value)] => .string (written key) :: .colon :: value.tokens
  | (key, value) :: rest =>
    .string (written key) :: .colon :: (value.tokens ++ .comma :: membersTokens rest)

end

mutual

/-- The value as it is written. -/
def tree : Value → Tree
  | null => .null
  | bool value => .bool value
  | nat n => .number (utf8 (Decimal.write n).toList)
  | string s => .string (written s)
  | object members => .object (membersTree members)

def membersTree : List (String × Value) → List (List UInt8 × Tree)
  | [] => []
  | (key, value) :: rest => (written key, value.tree) :: membersTree rest

end

/-! ### From text to tokens -/

theorem toList_text_object (members : List (String × Value)) :
    (object members).text.toList = '\x7b' :: ((membersText members).toList ++ ['\x7d']) := by
  simp [text]

theorem toList_membersText_cons (key : String) (value : Value) (next : String × Value)
    (rest : List (String × Value)) : (membersText ((key, value) :: next :: rest)).toList =
      (quote key).toList ++ ':' :: (value.text.toList ++ ',' :: (membersText (next :: rest)).toList) := by
  rw [membersText]
  · simp
  · simp

/-- A key with its colon. -/
theorem scan_key (key : String) (tokens : List Token) (rest : List Char) :
    scan ⟨.between, tokens⟩ (utf8 ((quote key).toList ++ ':' :: rest)) =
      scan ⟨.between, .colon :: .string (written key) :: tokens⟩ (utf8 rest) := by
  have colon : Mode.step .between 0x3A = some ([.colon], .between) := rfl
  rw [utf8_append, scan_append, scan_quote]
  exact scan_cons colon _ _

mutual

/-- **The text of a value gives its tokens.** -/
theorem scan_text : ∀ (v : Value) (tokens : List Token),
    ∃ l, scan ⟨.between, tokens⟩ (utf8 v.text.toList) = some l ∧
      Settles l (v.tokens.reverse ++ tokens)
  | null, tokens => ⟨_, rfl, settles_between _⟩
  | bool true, tokens => ⟨_, rfl, settles_between _⟩
  | bool false, tokens => ⟨_, rfl, settles_between _⟩
  | nat n, tokens => scan_digits n tokens
  | string s, tokens => ⟨_, scan_quote s tokens, settles_between _⟩
  | object members, tokens => by
    obtain ⟨l, read, settles⟩ := scan_membersText members (.beginObject :: tokens)
    have opens : Mode.step .between 0x7B = some ([.beginObject], .between) := rfl
    refine ⟨_, ?_, settles_between _⟩
    rw [toList_text_object, utf8_cons, utf8_append]
    show scan _ (0x7B :: (_ ++ [0x7D])) = _
    rw [scan_cons opens, scan_append]
    show (scan ⟨.between, .beginObject :: tokens⟩ _).bind _ = _
    rw [read, Option.bind_some, settles.scan_close]
    simp [Value.tokens]

theorem scan_membersText : ∀ (members : List (String × Value)) (tokens : List Token),
    ∃ l, scan ⟨.between, tokens⟩ (utf8 (membersText members).toList) = some l ∧
      Settles l ((membersTokens members).reverse ++ tokens)
  | [], tokens => ⟨_, rfl, settles_between _⟩
  | [(key, value)], tokens => by
    obtain ⟨l, read, settles⟩ := scan_text value (.colon :: .string (written key) :: tokens)
    refine ⟨l, ?_, by simpa [membersTokens] using settles⟩
    have written : (membersText [(key, value)]).toList =
        (quote key).toList ++ ':' :: value.text.toList := by simp [membersText]
    rw [written, scan_key, read]
  | (key, value) :: next :: rest, tokens => by
    obtain ⟨l, read, settles⟩ := scan_text value (.colon :: .string (written key) :: tokens)
    obtain ⟨l', read', settles'⟩ := scan_membersText (next :: rest)
      (.comma :: (value.tokens.reverse ++ .colon :: .string (written key) :: tokens))
    refine ⟨l', ?_, by simpa [membersTokens] using settles'⟩
    rw [toList_membersText_cons, scan_key, utf8_append, scan_append, read, Option.bind_some,
      utf8_cons]
    exact (settles.scan_comma _).trans read'

end

/-! ### From tokens to the tree -/

/-- The builder after tokens. -/
def build (b : Builder) (tokens : List Token) : Option Builder := tokens.foldlM Builder.feed b

theorem build_append (b : Builder) (s t : List Token) :
    build b (s ++ t) = (build b s).bind (build · t) := List.foldlM_append

theorem build_cons {b b' : Builder} {t : Token} (h : b.feed t = some b') (rest : List Token) :
    build b (t :: rest) = build b' rest := by
  rw [build, List.foldlM_cons, h]
  rfl

theorem build_single (b : Builder) (t : Token) : build b [t] = b.feed t := by
  unfold build
  simp

/-- A key with its colon opens a member. -/
theorem build_key {next : Expectation} (h : next = .key ∨ next = .keyOrEnd) (frames : List Frame)
    (done : List (List UInt8 × Tree)) (key : List UInt8) (rest : List Token) :
    build ⟨.object done :: frames, next⟩ (.string key :: .colon :: rest) =
      build ⟨.member key done :: frames, .value⟩ rest := by
  have named : Builder.feed ⟨.object done :: frames, next⟩ (.string key) =
      some ⟨.member key done :: frames, .colon⟩ := by
    rcases h with rfl | rfl <;> rfl
  have colon : Builder.feed ⟨.member key done :: frames, .colon⟩ .colon =
      some ⟨.member key done :: frames, .value⟩ := rfl
  rw [build_cons named, build_cons colon]

mutual

/-- **The tokens of a value give its tree.** -/
theorem build_tokens : ∀ (v : Value) (frames : List Frame),
    build ⟨frames, .value⟩ v.tokens = Builder.put frames v.tree
  | null, frames => build_single _ _
  | bool value, frames => build_single _ _
  | nat n, frames => build_single _ _
  | string s, frames => build_single _ _
  | object members, frames => by
    have opens : Builder.feed ⟨frames, .value⟩ .beginObject = some ⟨.object [] :: frames, .keyOrEnd⟩ :=
      rfl
    rw [tokens, List.cons_append, build_cons opens, build_append]
    by_cases none : members = []
    · rw [none]
      exact build_single _ _
    · rw [build_membersTokens members none frames [] .keyOrEnd (.inr rfl), Option.bind_some,
        build_single, List.append_nil, tree]
      show Builder.put frames (.object (membersTree members).reverse.reverse) = _
      rw [List.reverse_reverse]

theorem build_membersTokens : ∀ (members : List (String × Value)), members ≠ [] →
    ∀ (frames : List Frame) (done : List (List UInt8 × Tree)) (next : Expectation),
    next = .key ∨ next = .keyOrEnd →
    build ⟨.object done :: frames, next⟩ (membersTokens members) =
      some ⟨.object ((membersTree members).reverse ++ done) :: frames, .commaOrEnd⟩
  | [], any, _, _, _, _ => absurd rfl any
  | [(key, value)], _, frames, done, next, h => by
    rw [membersTokens, build_key h, build_tokens value]
    rfl
  | (key, value) :: (key', value') :: rest, _, frames, done, next, h => by
    have put : Builder.put (.member (written key) done :: frames) value.tree =
        some ⟨.object ((written key, value.tree) :: done) :: frames, .commaOrEnd⟩ := rfl
    have comma : Builder.feed ⟨.object ((written key, value.tree) :: done) :: frames, .commaOrEnd⟩
        .comma = some ⟨.object ((written key, value.tree) :: done) :: frames, .key⟩ := rfl
    have parts : membersTokens ((key, value) :: (key', value') :: rest) =
        .string (written key) :: .colon ::
          (value.tokens ++ .comma :: membersTokens ((key', value') :: rest)) := by
      simp [membersTokens]
    rw [parts, build_key h, build_append, build_tokens value, put, Option.bind_some, build_cons comma,
      build_membersTokens ((key', value') :: rest) (by simp) frames _ .key (.inl rfl)]
    simp [membersTree]

end

end Value

theorem ofBytes?_tokens (v : Value) : Token.ofBytes? (bytesOf v.text) = some v.tokens := by
  obtain ⟨l, read, settles⟩ := v.scan_text []
  obtain ⟨last, finish, tokens⟩ := Option.map_eq_some_iff.1 settles.finish
  have scanned : (bytesOf v.text).foldlM Lexer.feed ⟨.between, []⟩ = some l := by
    rw [bytesOf_eq]
    exact read
  unfold Token.ofBytes?
  rw [scanned, Option.bind_eq_bind, Option.bind_some, finish, Option.bind_eq_bind, Option.bind_some,
    tokens, List.append_nil, List.reverse_reverse]
  rfl

/-- **The text of a value gives its tree.** -/
theorem ofBytes?_text (v : Value) : Tree.ofBytes? (bytesOf v.text) = some v.tree := by
  have built : v.tokens.foldlM Builder.feed ⟨[], .value⟩ = some ⟨[], .nothing v.tree⟩ :=
    v.build_tokens []
  unfold Tree.ofBytes?
  rw [ofBytes?_tokens, Option.bind_eq_bind, Option.bind_some, Tree.ofTokens?, built]
  rfl

/-! ## Parts of a value -/

theorem text?_string (s : String) : (Value.string s).tree.text? = some s := decodeString_written s

theorem bool?_bool (value : Bool) : (Value.bool value).tree.bool? = some value := rfl

/-- Characters of ASCII are their bytes. -/
theorem map_utf8_of_ascii {s : List Char} (ascii : ∀ c ∈ s, c.toNat ≤ 127) :
    ((utf8 s).map fun b => Char.ofNat b.toNat) = s := by
  induction s with
  | nil => rfl
  | cons c s ih =>
    have small := ascii c List.mem_cons_self
    rw [utf8_cons, utf8EncodeChar_of_ascii small, List.singleton_append, List.map_cons,
      ofNat_toNat_byte small, ih fun c hc => ascii c (List.mem_cons_of_mem _ hc)]

theorem natUpTo?_nat {n limit : Nat} (fits : n ≤ limit) :
    (Value.nat n).tree.natUpTo? limit = some n := by
  have ascii : ∀ c ∈ (Decimal.write n).toList, c.toNat ≤ 127 := fun c hc => by
    have digit := Decimal.isDigit_of_mem_write hc
    rw [Char.isDigit, Bool.and_eq_true, decide_eq_true_iff, decide_eq_true_iff] at digit
    exact Nat.le_trans (UInt32.le_iff_toNat_le.1 digit.2) (by decide)
  have read : Decimal.readDigits limit 0 (Decimal.write n).toList = .ok n :=
    (Decimal.readDigits_eq_ok_iff (Nat.zero_le _)).2
      ⟨fun _ => Decimal.isDigit_of_mem_write, (Decimal.ofDigitChars_write n).symm, fits⟩
  rw [Value.tree, Tree.natUpTo?, map_utf8_of_ascii ascii, read]

/-- A value that may be missing, by the text of the one that is not. -/
theorem option?_optionText {α : Type} (write : α → String) {value : Tree → Option α}
    (h : ∀ a, value (Value.string (write a)).tree = some a) (a : Option α) :
    (Value.optionText (a.map write)).tree.option? value = some a := by
  cases a with
  | none => rfl
  | some a => exact congrArg (Option.map some) (h a)

theorem members?_object (members : List (String × Value)) : (Value.object members).tree.members? =
    some (members.map fun m => (m.1, m.2.tree)) := by
  show (Value.membersTree members).mapM _ = _
  induction members with
  | nil => rfl
  | cons m members ih =>
    rw [Value.membersTree, List.mapM_cons]
    dsimp only
    rw [decodeString_written, ih]
    rfl

/-- An entry is found under its name if no other has that name. -/
theorem find?_of_distinct {α : Type} {entries : List (String × α)} (distinct : (entries.map (·.1)).Nodup)
    {name : String} {a : α} (h : (name, a) ∈ entries) :
    entries.find? (·.1 == name) = some (name, a) := by
  induction entries with
  | nil => cases h
  | cons entry entries ih =>
    obtain ⟨fresh, distinct⟩ := List.nodup_cons.1 distinct
    rcases List.mem_cons.1 h with rfl | h
    · exact List.find?_cons_of_pos (beq_self_eq_true _)
    · have other : entry.1 ≠ name := fun same => fresh (List.mem_map.2 ⟨_, h, same.symm⟩)
      rw [List.find?_cons_of_neg (by simpa using other), ih distinct h]

/-- **A structure that is written with all its fields gives each of them.** -/
theorem ofTree?_object (members : List (String × Value)) (names : List String) (needed : Nat)
    (named : members.map (·.1) = names) (distinct : names.Nodup) :
    ∃ f, Fields.ofTree? names needed (Value.object members).tree = some f ∧
      ∀ name value, (name, value) ∈ members → f.find? name = some value.tree := by
  have names_eq : ((members.map fun m => (m.1, m.2.tree)).map (·.1)) = names := by
    rw [List.map_map, ← named]
    rfl
  have known : ((members.map fun m => (m.1, m.2.tree)).filter fun m => names.contains m.1) =
      members.map fun m => (m.1, m.2.tree) := by
    refine List.filter_eq_self.2 fun m hm => ?_
    rw [List.contains_iff_mem, ← names_eq]
    exact List.mem_map_of_mem hm
  refine ⟨⟨members.map fun m => (m.1, m.2.tree)⟩, ?_, fun name value h => ?_⟩
  · show (Tree.members? (Value.object members).tree).bind (Fields.ofMembers? names) = _
    rw [members?_object, Option.bind_some, Fields.ofMembers?, known, names_eq]
    exact if_pos distinct
  · have entry : (name, value.tree) ∈ members.map fun m => (m.1, m.2.tree) :=
      List.mem_map.2 ⟨(name, value), h, rfl⟩
    rw [Fields.find?, find?_of_distinct (names_eq ▸ distinct) entry]
    rfl

end Json

end Roster
