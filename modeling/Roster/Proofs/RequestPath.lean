import Roster.Directory.Pods
import Roster.Proofs.JsonText

/-!
# Proofs.RequestPath — the path of a request tells which pods are asked for

* `Percent.decode?_encode`: an encoded text decodes. `Percent.isWritten_of_mem`: no separator of a path
  stands in it.
* `Target`: a path cut into segments, query and fragment. `Target.ofText_eq`: parts without separators
  come out as they were put together.
* `PodQuery.target_path`: the parts of the path of a request. `PodQuery.ofPath?`: the request, read off
  them.
* `requests_are_told_apart`: two requests have the same path only if they ask for the same pods.
-/

namespace Roster

open Json

/-! ## Encoded texts -/

namespace Percent

theorem digit?_digit : ∀ n < 16, digit? (digit n) = some n := by decide

/-- A byte that stands for itself is a character of ASCII, and not the percent sign. -/
theorem bounds_of_plain {b : UInt8} (plain : isPlain b = true) : b.toNat < 128 ∧ b.toNat ≠ 0x25 := by
  simp only [isPlain, Bool.or_eq_true, Bool.and_eq_true, decide_eq_true_eq, beq_iff_eq] at plain
  omega

theorem toNat_ofNat_plain {b : UInt8} (plain : isPlain b = true) : (Char.ofNat b.toNat).toNat = b.toNat := by
  have same : ∀ n < 128, (Char.ofNat n).toNat = n := by decide
  exact same _ (bounds_of_plain plain).1

/-- **A byte decodes**, whatever stands behind it. -/
theorem decodeBytes?_encodeByte (b : UInt8) (rest : List Char) :
    decodeBytes? (encodeByte b ++ rest) = (decodeBytes? rest).map (b :: ·) := by
  by_cases plain : isPlain b = true
  · have value := toNat_ofNat_plain plain
    have byte : b.toNat.toUInt8 = b := UInt8.ofNat_toNat
    have sign : Char.ofNat b.toNat ≠ '%' := fun same => (bounds_of_plain plain).2 (by rw [← value, same]; rfl)
    rw [encodeByte, if_pos plain, List.singleton_append, decodeBytes?.eq_3 _ _ fun _ _ _ same => absurd same sign]
    simp only [value, byte, plain, b.toNat_lt, decide_true, Bool.and_self, if_true]
  · have high := digit?_digit (b.toNat / 16) (by have := b.toNat_lt; omega)
    have low := digit?_digit (b.toNat % 16) (Nat.mod_lt _ (by decide))
    have byte : (b.toNat / 16 * 16 + b.toNat % 16).toUInt8 = b := by
      rw [Nat.div_add_mod']
      exact UInt8.ofNat_toNat
    rw [encodeByte, if_neg plain, List.cons_append, List.cons_append, List.cons_append, List.nil_append,
      decodeBytes?, high, low]
    simp only [Option.bind_eq_bind, Option.bind_some, byte]
    cases decodeBytes? rest <;> rfl

theorem decodeBytes?_flatMap (bytes : List UInt8) : decodeBytes? (bytes.flatMap encodeByte) = some bytes := by
  induction bytes with
  | nil => rfl
  | cons b rest ih => rw [List.flatMap_cons, decodeBytes?_encodeByte, ih, Option.map_some]

theorem toList_encode (s : String) : (encode s).toList = (bytesOf s).flatMap encodeByte :=
  String.toList_ofList

/-- **An encoded text decodes.** -/
theorem decode?_encode (s : String) : decode? (encode s) = some s := by
  rw [decode?, toList_encode, decodeBytes?_flatMap, Option.bind_eq_bind, Option.bind_some, bytesOf_eq,
    fromUTF8?_utf8]

/-- What encoded texts are made of: letters, digits, `-`, `_`, `.`, `~` and the percent sign. -/
def isWritten (c : Char) : Bool := c.isAlphanum || ['-', '_', '.', '~', '%'].contains c

theorem isWritten_plain : ∀ n < 128, isPlain n.toUInt8 = true → isWritten (Char.ofNat n) = true := by
  decide +kernel

theorem isWritten_digit : ∀ n < 16, isWritten (digit n) = true := by decide +kernel

theorem isWritten_of_mem_byte {b : UInt8} {c : Char} (h : c ∈ encodeByte b) : isWritten c = true := by
  have byte := b.toNat_lt
  unfold encodeByte at h
  split at h
  · next plain =>
    obtain rfl := List.mem_singleton.1 h
    have same : b.toNat.toUInt8 = b := UInt8.ofNat_toNat
    exact isWritten_plain _ (bounds_of_plain plain).1 (same.symm ▸ plain)
  · simp only [List.mem_cons, List.not_mem_nil, or_false] at h
    rcases h with rfl | rfl | rfl
    · decide
    · exact isWritten_digit _ (by omega)
    · exact isWritten_digit _ (by omega)

theorem isWritten_of_mem {s : String} {c : Char} (h : c ∈ (encode s).toList) : isWritten c = true := by
  rw [toList_encode] at h
  obtain ⟨b, -, h⟩ := List.mem_flatMap.1 h
  exact isWritten_of_mem_byte h

theorem not_mem_encode (s : String) {c : Char} (h : isWritten c = false) : c ∉ (encode s).toList :=
  fun mem => by
    rw [isWritten_of_mem mem] at h
    cases h

end Percent

/-! ## The parts of a path -/

/-- Characters up to the first separator, and those behind it. -/
def cutAt (separator : Char) (s : List Char) : List Char × Option (List Char) :=
  (s.takeWhile (· != separator), (s.dropWhile (· != separator)).tail?)

theorem cutAt_of_not_mem {separator : Char} {s : List Char} (h : separator ∉ s) :
    cutAt separator s = (s, none) := by
  have all : ∀ c ∈ s, (c != separator) = true := fun c mem => bne_iff_ne.2 fun same => h (same ▸ mem)
  rw [cutAt, List.takeWhile_eq_self_iff.2 all, List.dropWhile_eq_nil_iff.2 all]
  rfl

theorem cutAt_append {separator : Char} {s : List Char} (h : separator ∉ s) (rest : List Char) :
    cutAt separator (s ++ separator :: rest) = (s, some rest) := by
  have all : ∀ c ∈ s, (c != separator) = true := fun c mem => bne_iff_ne.2 fun same => h (same ▸ mem)
  rw [cutAt, List.takeWhile_append_of_pos all, List.dropWhile_append_of_pos all]
  simp

/-- What a path says to whoever serves it. -/
structure Target where
  /-- The parts between slashes. -/
  segments : List String
  /-- What stands behind the first question mark. -/
  query : Option String
  /-- What stands behind the first number sign; the rest of the path ends there. -/
  fragment : Option String
deriving DecidableEq

namespace Target

/-- A path cut at its separators. -/
def ofText (s : String) : Target :=
  let (rest, fragment) := cutAt '#' s.toList
  let (path, query) := cutAt '?' rest
  { segments := (path.splitOn '/').map String.ofList
    query := query.map String.ofList
    fragment := fragment.map String.ofList }

/-- The characters that segments and a query are put together to. -/
def written (segments : List String) (query : Option String) : List Char :=
  ['/'].intercalate (segments.map String.toList) ++
    match query with
    | none => []
    | some text => '?' :: text.toList

theorem mem_intercalate {c : Char} : ∀ {parts : List (List Char)}, c ∈ ['/'].intercalate parts →
    c = '/' ∨ ∃ part ∈ parts, c ∈ part
  | [], h => by cases h
  | [part], h => .inr ⟨part, List.mem_cons_self, by simpa using h⟩
  | part :: next :: rest, h => by
    rw [List.intercalate_cons_cons, List.mem_append, List.mem_append, List.mem_singleton] at h
    rcases h with (h | h) | h
    · exact .inr ⟨part, List.mem_cons_self, h⟩
    · exact .inl h
    · rcases mem_intercalate h with h | ⟨p, mem, h⟩
      · exact .inl h
      · exact .inr ⟨p, List.mem_cons_of_mem _ mem, h⟩

/-- **Parts without separators come out as they were put together.** -/
theorem ofText_eq {s : String} {segments : List String} {query : Option String}
    (shape : s.toList = written segments query) (nonempty : segments ≠ [])
    (whole : ∀ t ∈ segments, '/' ∉ t.toList ∧ '?' ∉ t.toList ∧ '#' ∉ t.toList)
    (last : ∀ t ∈ query, '#' ∉ t.toList) : ofText s = ⟨segments, query, none⟩ := by
  have clean : ∀ c, c ≠ '/' → (∀ t ∈ segments, c ∉ t.toList) →
      c ∉ ['/'].intercalate (segments.map String.toList) := by
    intro c slash absent mem
    rcases mem_intercalate mem with same | ⟨_, part, mem⟩
    · exact slash same
    · obtain ⟨t, there, rfl⟩ := List.mem_map.1 part
      exact absent t there mem
  have mark : '#' ∉ written segments query := by
    unfold written
    rw [List.mem_append, not_or]
    refine ⟨clean '#' (by decide) fun t mem => (whole t mem).2.2, ?_⟩
    cases query with
    | none => exact List.not_mem_nil
    | some text => exact List.not_mem_cons_of_ne_of_not_mem (by decide) (last text rfl)
  have split : (['/'].intercalate (segments.map String.toList)).splitOn '/' = segments.map String.toList := by
    refine List.splitOn_intercalate '/' (fun part mem => ?_) (by simpa using nonempty)
    obtain ⟨t, there, rfl⟩ := List.mem_map.1 mem
    exact (whole t there).1
  have back : (segments.map String.toList).map String.ofList = segments := by
    rw [List.map_map]
    exact (List.map_congr_left fun t _ => String.ofList_toList).trans (List.map_id _)
  have question := clean '?' (by decide) fun t mem => (whole t mem).2.1
  unfold ofText
  rw [shape, cutAt_of_not_mem mark]
  unfold written
  cases query with
  | none => simp only [List.append_nil, cutAt_of_not_mem question, split, back, Option.map_none]
  | some text =>
    simp only [cutAt_append question, split, back, Option.map_some, Option.map_none, String.ofList_toList]

end Target

/-! ## Requests -/

namespace PodQuery

/-- The labels that narrow a request. Empty labels count as none. -/
def selection (q : PodQuery) : Option String := if q.labels.getD "" = "" then none else q.labels

theorem selection_eq (q : PodQuery) :
    q.selection = if q.labels.getD "" = "" then none else some (q.labels.getD "") := by
  unfold selection
  cases q.labels with
  | none => rfl
  | some labels => rfl

theorem getD_selection (q : PodQuery) : q.selection.getD "" = q.labels.getD "" := by
  rw [selection_eq]
  split
  · next empty => exact empty.symm
  · rfl

/-- The name of the parameter for labels, and the labels. -/
def narrowing (labels : String) : String := "labelSelector=" ++ Percent.encode labels

/-- The parts between the slashes of the path of a request. -/
def segments (q : PodQuery) : List String := ["", "namespaces", Percent.encode q.space, "pods"]

theorem path_eq (q : PodQuery) : q.path = "/namespaces/" ++ Percent.encode q.space ++ "/pods" ++
    match q.selection with
    | none => ""
    | some labels => "?" ++ narrowing labels := by
  obtain ⟨space, labels⟩ := q
  cases labels with
  | none => rfl
  | some labels =>
    by_cases empty : labels = ""
    · subst empty
      rfl
    · have shown : labels.isEmpty = false := by simpa [String.isEmpty_iff] using empty
      have selected : selection ⟨space, some labels⟩ = some labels := if_neg empty
      rw [selected, path]
      have mark : "?labelSelector=" = "?" ++ "labelSelector=" := by decide
      simp only [shown, Bool.false_eq_true, if_false, narrowing, mark, String.append_assoc]

theorem toList_path (q : PodQuery) :
    q.path.toList = Target.written q.segments (q.selection.map narrowing) := by
  rw [path_eq]
  unfold Target.written segments
  cases q.selection with
  | none => simp [List.intercalate]
  | some labels => simp [List.intercalate]

/-- **The parts of the path of a request.** The namespace is one of four segments, whatever stands in it,
the query holds the labels and nothing else, and there is no fragment. -/
theorem target_path (q : PodQuery) :
    Target.ofText q.path = ⟨q.segments, q.selection.map narrowing, none⟩ := by
  refine Target.ofText_eq q.toList_path (List.cons_ne_nil _ _) ?_ ?_
  · unfold segments
    simp only [List.forall_mem_cons]
    exact ⟨by decide, by decide, ⟨Percent.not_mem_encode _ (by decide), Percent.not_mem_encode _ (by decide),
      Percent.not_mem_encode _ (by decide)⟩, by decide, nofun⟩
  · intro t there
    obtain ⟨labels, -, rfl⟩ := Option.map_eq_some_iff.1 there
    unfold narrowing
    rw [String.toList_append, List.mem_append, not_or]
    exact ⟨by decide, Percent.not_mem_encode _ (by decide)⟩

/-- The labels that a query is for. -/
def selectionOf? (query : String) : Option String :=
  match cutAt '=' query.toList with
  | (name, some value) =>
    if String.ofList name = "labelSelector" then Percent.decode? (String.ofList value) else none
  | (_, none) => none

/-- The request that a path is for. -/
def ofPath? (path : String) : Option PodQuery :=
  match Target.ofText path with
  | ⟨[root, all, space, kind], query, none⟩ =>
    if root = "" ∧ all = "namespaces" ∧ kind = "pods" then do
      let space ← Percent.decode? space
      match query with
      | none => return ⟨space, none⟩
      | some query => return ⟨space, ← selectionOf? query⟩
    else none
  | _ => none

theorem selectionOf?_narrowing (labels : String) : selectionOf? (narrowing labels) = some labels := by
  have written : (narrowing labels).toList = "labelSelector".toList ++ '=' :: (Percent.encode labels).toList := by
    simp [narrowing]
  unfold selectionOf?
  rw [written, cutAt_append (by decide)]
  simp only [String.ofList_toList, if_true, Percent.decode?_encode]

/-- **A request is read off its path.** -/
theorem ofPath?_path (q : PodQuery) : ofPath? q.path = some ⟨q.space, q.selection⟩ := by
  unfold ofPath?
  rw [target_path, segments]
  simp only [and_self, if_true, Percent.decode?_encode, Option.bind_eq_bind, Option.bind_some]
  cases q.selection with
  | none => rfl
  | some labels => simp only [Option.map_some, selectionOf?_narrowing, Option.bind_some]; rfl

/-- **Requests are told apart by their paths.** Two have the same path if and only if they are for the
same namespace and the same labels, where empty labels count as none. Whatever text the namespace is, it
is one segment of the path, and nothing but labels gets into the query. The path decodes to what was asked
for. -/
theorem requests_are_told_apart (q r : PodQuery) :
    (q.path = r.path ↔ q.space = r.space ∧ q.labels.getD "" = r.labels.getD "") ∧
    Target.ofText q.path = ⟨["", "namespaces", Percent.encode q.space, "pods"],
      q.selection.map fun labels => "labelSelector=" ++ Percent.encode labels, none⟩ ∧
    ofPath? q.path = some ⟨q.space, q.selection⟩ ∧ q.selection.getD "" = q.labels.getD "" := by
  refine ⟨⟨fun same => ?_, fun ⟨space, labels⟩ => ?_⟩, q.target_path, q.ofPath?_path, q.getD_selection⟩
  · have read := q.ofPath?_path
    rw [same, r.ofPath?_path, Option.some.injEq, PodQuery.mk.injEq] at read
    exact ⟨read.1.symm, by rw [← q.getD_selection, ← r.getD_selection, read.2]⟩
  · rw [path_eq, path_eq, selection_eq, selection_eq, space, labels]

/-- A namespace that looks like the rest of a path. -/
example : ofPath? (path ⟨"a/pods?labelSelector=%41#b", some "é=日&c"⟩) =
    some ⟨"a/pods?labelSelector=%41#b", some "é=日&c"⟩ := by decide +kernel

end PodQuery

end Roster
