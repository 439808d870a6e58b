import Roster.Peer

/-!
# KeyMap — finite maps from peer keys, in the order of the keys

* `KeyMap α`: entries with strictly ascending keys; the order is part of the type.
* `find?`, `insert`, `insertNew`, `erase`: one key at a time.
* `keys`, `entries`: everything, ascending.
* `find?_insert`, `find?_insertNew`, `find?_erase`: each operation through `find?`.
-/

namespace Roster

/-- The keys of an entry list ascend strictly. -/
def Ascending {α : Type} (l : List (PeerKey × α)) : Prop := l.Pairwise (fun a b => a.1 < b.1)

/-- A finite map from peer keys, held in the order of its keys. -/
structure KeyMap (α : Type) where
  entries : List (PeerKey × α)
  ascending : Ascending entries

/-- A finite set of peer keys. -/
abbrev KeySet := KeyMap Unit

namespace KeyMap

variable {α : Type}

/-! ## Entry lists -/

/-- The value at `k`. -/
def lookup (k : PeerKey) : List (PeerKey × α) → Option α
  | [] => none
  | (k', v) :: rest => if k = k' then some v else lookup k rest

/-- Puts an entry at its place; `f` makes the value from the one already there. -/
def place (k : PeerKey) (f : Option α → α) : List (PeerKey × α) → List (PeerKey × α)
  | [] => [(k, f none)]
  | (k', v) :: rest =>
    if k < k' then (k, f none) :: (k', v) :: rest
    else if k = k' then (k, f (some v)) :: rest
    else (k', v) :: place k f rest

theorem key_of_mem_place {k : PeerKey} {f : Option α → α} {e : PeerKey × α} :
    ∀ {l : List (PeerKey × α)}, e ∈ place k f l → e.1 = k ∨ e ∈ l
  | [], h => by simp only [place, List.mem_singleton] at h; exact .inl (h ▸ rfl)
  | (k', v) :: rest, h => by
    rw [place] at h
    split at h
    · rcases List.mem_cons.1 h with rfl | h
      · exact .inl rfl
      · exact .inr h
    · split at h
      · rcases List.mem_cons.1 h with rfl | h
        · exact .inl rfl
        · exact .inr (List.mem_cons_of_mem _ h)
      · rcases List.mem_cons.1 h with rfl | h
        · exact .inr List.mem_cons_self
        · exact (key_of_mem_place h).imp id (List.mem_cons_of_mem _)

theorem ascending_place {k : PeerKey} {f : Option α → α} :
    ∀ {l : List (PeerKey × α)}, Ascending l → Ascending (place k f l)
  | [], _ => List.pairwise_singleton _ _
  | (k', v) :: rest, h => by
    have hr := List.pairwise_cons.1 h
    rw [KeyMap.place]
    split
    · rename_i hlt
      refine List.pairwise_cons.2 ⟨fun e he => ?_, h⟩
      rcases List.mem_cons.1 he with rfl | he
      · exact hlt
      · exact PeerKey.lt_trans hlt (hr.1 e he)
    · rename_i hnlt
      split
      · rename_i heq
        exact List.pairwise_cons.2 ⟨fun e he => heq ▸ hr.1 e he, hr.2⟩
      · rename_i hne
        refine List.pairwise_cons.2 ⟨fun e he => ?_, ascending_place hr.2⟩
        rcases key_of_mem_place he with h' | h'
        · exact h' ▸ PeerKey.lt_of_not_lt_of_ne hnlt hne
        · exact hr.1 e h'

theorem lookup_eq_none_of_lt {k : PeerKey} {l : List (PeerKey × α)} (h : ∀ e ∈ l, k < e.1) :
    lookup k l = none := by
  induction l with
  | nil => rfl
  | cons e rest ih =>
    have hk : k ≠ e.1 := fun he => PeerKey.lt_irrefl k (by simpa [he] using h e List.mem_cons_self)
    rw [lookup, if_neg hk]
    exact ih fun e' he' => h e' (List.mem_cons_of_mem _ he')

theorem lookup_place (k k' : PeerKey) (f : Option α → α) :
    ∀ {l : List (PeerKey × α)}, Ascending l →
      lookup k' (place k f l) = if k' = k then some (f (lookup k l)) else lookup k' l
  | [], _ => by by_cases h : k' = k <;> simp [KeyMap.place, lookup, h]
  | (j, v) :: rest, hl => by
    have hr := List.pairwise_cons.1 hl
    rw [KeyMap.place]
    split
    · rename_i hlt
      have hnone : lookup k ((j, v) :: rest) = none := lookup_eq_none_of_lt fun e he => by
        rcases List.mem_cons.1 he with rfl | he
        · exact hlt
        · exact PeerKey.lt_trans hlt (hr.1 e he)
      rw [hnone]
      by_cases h : k' = k <;> simp [lookup, h]
    · split
      · rename_i heq
        subst heq
        by_cases h : k' = k <;> simp [lookup, h]
      · rename_i hne
        have ih := lookup_place k k' f hr.2
        by_cases h : k' = j
        · have : k' ≠ k := fun e => hne (e ▸ h)
          simp [lookup, h, Ne.symm hne]
        · simp [lookup, h, hne, ih]

/-! ## Maps -/

/-- The map without entries. -/
def empty : KeyMap α := ⟨[], List.Pairwise.nil⟩

instance : Inhabited (KeyMap α) := ⟨empty⟩

def find? (m : KeyMap α) (k : PeerKey) : Option α := lookup k m.entries

/-- Whether `k` has an entry. -/
def contains (m : KeyMap α) (k : PeerKey) : Bool := (m.find? k).isSome

def insert (m : KeyMap α) (k : PeerKey) (v : α) : KeyMap α :=
  ⟨place k (fun _ => v) m.entries, ascending_place m.ascending⟩

/-- Sets the value at `k` unless there is one. -/
def insertNew (m : KeyMap α) (k : PeerKey) (v : α) : KeyMap α :=
  ⟨place k (·.getD v) m.entries, ascending_place m.ascending⟩

/-- The entries that pass a test. -/
def filter (m : KeyMap α) (p : PeerKey → α → Bool) : KeyMap α :=
  ⟨m.entries.filter fun e => p e.1 e.2, List.Pairwise.filter _ m.ascending⟩

def erase (m : KeyMap α) (k : PeerKey) : KeyMap α := m.filter fun k' _ => k' != k

def keys (m : KeyMap α) : List PeerKey := m.entries.map (·.1)

/-- The values in the order of their keys. -/
def values (m : KeyMap α) : List α := m.entries.map (·.2)

/-- The number of entries. -/
def size (m : KeyMap α) : Nat := m.entries.length

/-- Entries of a list; of two with the same key the first stays. -/
def ofList (l : List (PeerKey × α)) : KeyMap α := l.foldl (fun m e => m.insertNew e.1 e.2) empty

@[simp] theorem find?_empty (k : PeerKey) : (empty : KeyMap α).find? k = none := rfl

theorem find?_insert (m : KeyMap α) (k k' : PeerKey) (v : α) :
    (m.insert k v).find? k' = if k' = k then some v else m.find? k' :=
  lookup_place k k' _ m.ascending

theorem find?_insertNew (m : KeyMap α) (k k' : PeerKey) (v : α) :
    (m.insertNew k v).find? k' = if k' = k then some ((m.find? k).getD v) else m.find? k' :=
  lookup_place k k' _ m.ascending

theorem find?_erase (m : KeyMap α) (k k' : PeerKey) :
    (m.erase k).find? k' = if k' = k then none else m.find? k' := by
  obtain ⟨l, hl⟩ := m
  simp only [erase, filter, find?]
  induction l with
  | nil => simp [lookup]
  | cons e rest ih =>
    have ih := ih (List.pairwise_cons.1 hl).2
    by_cases hk : e.1 = k
    · simp only [List.filter_cons, hk, bne_self_eq_false, Bool.false_eq_true, if_false, lookup, ih]
      by_cases h : k' = k <;> simp [h]
    · have hb : (e.1 != k) = true := bne_iff_ne.2 hk
      simp only [List.filter_cons, hb, if_true, lookup, ih]
      by_cases h : k' = e.1
      · simp [h, hk]
      · simp [h]

theorem contains_insert (m : KeyMap α) (k k' : PeerKey) (v : α) :
    (m.insert k v).contains k' = (decide (k' = k) || m.contains k') := by
  unfold contains
  rw [find?_insert]
  by_cases h : k' = k <;> simp [h]

theorem contains_erase (m : KeyMap α) (k k' : PeerKey) :
    (m.erase k).contains k' = (!decide (k' = k) && m.contains k') := by
  unfold contains
  rw [find?_erase]
  by_cases h : k' = k <;> simp [h]

theorem find?_eq_some_iff {m : KeyMap α} {k : PeerKey} {v : α} :
    m.find? k = some v ↔ (k, v) ∈ m.entries := by
  obtain ⟨l, hl⟩ := m
  simp only [find?]
  induction l with
  | nil => simp [lookup]
  | cons e rest ih =>
    obtain ⟨h1, h2⟩ := List.pairwise_cons.1 hl
    by_cases hk : k = e.1
    · have hnot : (k, v) ∉ rest := fun hm => PeerKey.lt_irrefl k (by simpa [hk] using h1 _ hm)
      rw [lookup, if_pos hk, List.mem_cons, or_iff_left hnot, Prod.ext_iff, Option.some_inj]
      exact ⟨fun hv => ⟨hk, hv.symm⟩, fun he => he.2.symm⟩
    · have hne : (k, v) ≠ e := fun h => hk (by rw [← h])
      simp [lookup, hk, hne, ih h2]

theorem mem_of_mem_ofList {l : List (PeerKey × α)} {e : PeerKey × α} (h : e ∈ (ofList l).entries) :
    e ∈ l := by
  have key : ∀ (l : List (PeerKey × α)) (m : KeyMap α),
      e ∈ (l.foldl (fun m e => m.insertNew e.1 e.2) m).entries → e ∈ m.entries ∨ e ∈ l := by
    intro l
    induction l with
    | nil => exact fun m h => .inl h
    | cons a rest ih =>
      intro m h
      rcases ih _ h with h | h
      · have h := find?_eq_some_iff.2 h
        rw [find?_insertNew] at h
        by_cases hk : e.1 = a.1
        · rw [if_pos hk] at h
          cases hm : m.find? a.1 with
          | none =>
            rw [hm] at h
            exact .inr (List.mem_cons.2 (.inl (Prod.ext hk (Option.some.inj h).symm)))
          | some v =>
            rw [hm] at h
            refine .inl (find?_eq_some_iff.1 ?_)
            rw [hk, hm]
            exact h
        · rw [if_neg hk] at h
          exact .inl (find?_eq_some_iff.1 h)
      · exact .inr (List.mem_cons_of_mem _ h)
  exact (key l empty h).resolve_left (List.not_mem_nil)

theorem mem_values_of_find? {m : KeyMap α} {k : PeerKey} {v : α} (h : m.find? k = some v) :
    v ∈ m.values :=
  List.mem_map.2 ⟨(k, v), find?_eq_some_iff.1 h, rfl⟩

theorem keys_pairwise (m : KeyMap α) : m.keys.Pairwise (· < ·) :=
  List.pairwise_map.2 m.ascending

theorem keys_nodup (m : KeyMap α) : m.keys.Nodup :=
  m.keys_pairwise.imp fun {a b} (h : a < b) (he : a = b) => PeerKey.lt_irrefl b (he ▸ h)

theorem mem_keys {m : KeyMap α} {k : PeerKey} : k ∈ m.keys ↔ m.contains k = true := by
  rw [contains, Option.isSome_iff_exists]
  refine ⟨fun h => ?_, fun ⟨v, hv⟩ => List.mem_map.2 ⟨_, find?_eq_some_iff.1 hv, rfl⟩⟩
  obtain ⟨e, he, rfl⟩ := List.mem_map.1 h
  exact ⟨e.2, find?_eq_some_iff.2 he⟩

theorem contains_of_mem {m : KeyMap α} {e : PeerKey × α} (h : e ∈ m.entries) :
    m.contains e.1 = true :=
  mem_keys.1 (List.mem_map.2 ⟨e, h, rfl⟩)

/-- Some of the entries still have different keys. -/
theorem nodup_keys_filter (m : KeyMap α) (p : PeerKey × α → Bool) :
    ((m.entries.filter p).map (·.1)).Nodup :=
  m.keys_nodup.sublist (List.filter_sublist.map _)

theorem not_mem_filter_of_none (m : KeyMap α) {k : PeerKey} (h : m.find? k = none)
    (p : PeerKey × α → Bool) : k ∉ (m.entries.filter p).map (·.1) := by
  rintro hm
  obtain ⟨e, he, rfl⟩ := List.mem_map.1 hm
  simp [find?_eq_some_iff.2 (List.mem_filter.1 he).1] at h

/-- Maps with the same keys list them alike. -/
theorem keys_eq_of_contains {β : Type} {m : KeyMap α} {m' : KeyMap β}
    (h : ∀ k, m.contains k = m'.contains k) : m.keys = m'.keys := by
  have perm : m.keys.Perm m'.keys :=
    (List.perm_ext_iff_of_nodup m.keys_nodup m'.keys_nodup).2 fun k => by
      rw [mem_keys, mem_keys, h]
  exact perm.eq_of_pairwise (fun a b _ _ hab hba => absurd (PeerKey.lt_trans hab hba)
    (PeerKey.lt_irrefl a)) m.keys_pairwise m'.keys_pairwise

end KeyMap

end Roster
