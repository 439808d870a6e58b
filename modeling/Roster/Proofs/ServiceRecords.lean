import Mathlib.Data.List.Sort
import Roster.Directory.Dns
import Roster.Proofs.Spelling

/-!
# Proofs.ServiceRecords — the records behind a service name are a canonical list

* `Address.number`, `Endpoint.Before`: the order of endpoints, said with numbers: IPv4 before IPv6, then
  by address, then by port. `Endpoint.rank_lt_iff`: it is the order of ranks.
* `Endpoint.mem_place`, `Endpoint.pairwise_place`: putting an endpoint at its place.
* `Dns.Serves`: an answer names an endpoint, where port 0 stands for the service port.
* `srv_records_are_canonical`: the records of an answer are those of the endpoints it names, in order and
  each once, so they do not depend on how the answer names them.
* `list_sources`: which answer the peers of a service name come from. `list_of_literal`: a service name
  that is an IP literal.
-/

namespace Roster

/-! ## The order of endpoints -/

/-- The number that an address is within its family. -/
def Address.number : Address → Nat
  | .v4 a b c d => value 256 [a.toNat, b.toNat, c.toNat, d.toNat]
  | .v6 groups => value 65536 (groups.toList.map (·.toNat))

/-- An address comes before another: IPv4 before IPv6, and by number within each family. -/
def Address.Before : Address → Address → Prop
  | .v4 .., .v6 _ => True
  | .v6 _, .v4 .. => False
  | a, b => a.number < b.number

/-- An endpoint comes before another: by address, then by port. -/
def Endpoint.Before (e e' : Endpoint) : Prop :=
  e.address.Before e'.address ∨ e.address = e'.address ∧ e.port < e'.port

instance (a b : Address) : Decidable (a.Before b) := by
  unfold Address.Before
  split <;> infer_instance

instance (e e' : Endpoint) : Decidable (e.Before e') := inferInstanceAs (Decidable (_ ∨ _))

/-- Digits of the same number are compared like the numbers they stand for. Here both follow digits that
are worth `n` and `n'`. -/
theorem foldl_digits_lt_iff {base : Nat} {l l' : List Nat} (length : l.length = l'.length)
    (below : ∀ x ∈ l, x < base) (below' : ∀ x ∈ l', x < base) (n n' : Nat) :
    l.foldl (fun n d => n * base + d) n < l'.foldl (fun n d => n * base + d) n' ↔
      n < n' ∨ n = n' ∧ l < l' := by
  induction l generalizing l' n n' with
  | nil =>
    obtain rfl := List.eq_nil_of_length_eq_zero length.symm
    rw [List.foldl_nil, List.foldl_nil, or_iff_left fun h => List.not_lt_nil _ h.2]
  | cons x l ih =>
    cases l' with
    | nil => cases length
    | cons y l' =>
      have hx := below x List.mem_cons_self
      have hy := below' y List.mem_cons_self
      have carry : ∀ {m m' z : Nat}, m < m' → z < base → m * base + z < m' * base := by
        intro m m' z hm hz
        have := Nat.mul_le_mul_right base (Nat.succ_le_of_lt hm)
        rw [Nat.succ_mul] at this
        omega
      rw [List.foldl_cons, List.foldl_cons,
        ih (Nat.succ.inj length) (fun z hz => below z (List.mem_cons_of_mem _ hz))
          (fun z hz => below' z (List.mem_cons_of_mem _ hz)), List.cons_lt_cons_iff]
      rcases Nat.lt_trichotomy n n' with less | rfl | more
      · have := carry less hx
        exact iff_of_true (.inl (by omega)) (.inl less)
      · simp only [Nat.add_lt_add_iff_left, Nat.add_left_cancel_iff, Nat.lt_irrefl, false_or, true_and]
      · have := carry more hy
        refine iff_of_false ?_ ?_
        · rintro (h | ⟨h, -⟩) <;> omega
        · rintro (h | ⟨h, -⟩) <;> omega

theorem value_lt_iff {base : Nat} {l l' : List Nat} (length : l.length = l'.length)
    (below : ∀ x ∈ l, x < base) (below' : ∀ x ∈ l', x < base) :
    Address.value base l < Address.value base l' ↔ l < l' :=
  (foldl_digits_lt_iff length below below' 0 0).trans (by simp)

theorem append_lt_append_iff {l l' : List Nat} (length : l.length = l'.length) (x y : Nat) :
    l ++ [x] < l' ++ [y] ↔ l < l' ∨ l = l' ∧ x < y := by
  induction l generalizing l' with
  | nil =>
    obtain rfl := List.eq_nil_of_length_eq_zero length.symm
    rw [List.nil_append, List.nil_append, List.cons_lt_cons_iff,
      or_iff_left fun h => List.not_lt_nil _ h.2, or_iff_right (List.not_lt_nil _), and_iff_right rfl]
  | cons z l ih =>
    cases l' with
    | nil => cases length
    | cons z' l' =>
      rw [List.cons_append, List.cons_append, List.cons_lt_cons_iff, List.cons_lt_cons_iff,
        ih (Nat.succ.inj length), List.cons.injEq]
      tauto

namespace Groups

theorem ext {groups groups' : Groups} (h : groups.toList = groups'.toList) : groups = groups' := by
  cases groups
  cases groups'
  cases h
  rfl

/-- Groups by their numbers. -/
theorem map_toNat_inj {groups groups' : Groups}
    (h : groups.toList.map (·.toNat) = groups'.toList.map (·.toNat)) : groups = groups' :=
  ext ((List.map_injective_iff.2 fun _ _ => UInt16.toNat_inj.1) h)

theorem lt_of_mem_map_toNat {groups : Groups} {x : Nat} (h : x ∈ groups.toList.map (·.toNat)) :
    x < 65536 := by
  obtain ⟨g, -, rfl⟩ := List.mem_map.1 h
  exact g.toNat_lt

end Groups

namespace Address

theorem rank_inj {a b : Address} (h : a.rank = b.rank) : a = b := by
  cases a with
  | v4 x y z w =>
    cases b with
    | v4 x' y' z' w' =>
      simp only [rank, List.cons.injEq, UInt8.toNat_inj, and_true, true_and] at h
      obtain ⟨rfl, rfl, rfl, rfl⟩ := h
      rfl
    | v6 groups => cases h
  | v6 groups =>
    cases b with
    | v4 x y z w => cases h
    | v6 groups' => rw [Groups.map_toNat_inj (List.cons.inj h).2]

theorem rank_inj_iff {a b : Address} : a.rank = b.rank ↔ a = b := ⟨rank_inj, congrArg rank⟩

/-- The order of addresses is that of their ranks. Behind them may stand the rank of a port. -/
theorem rank_append_lt_iff (a b : Address) (x y : Nat) :
    a.rank ++ [x] < b.rank ++ [y] ↔ a.Before b ∨ a = b ∧ x < y := by
  cases a with
  | v4 a₁ a₂ a₃ a₄ =>
    cases b with
    | v4 b₁ b₂ b₃ b₄ =>
      have length : (v4 a₁ a₂ a₃ a₄).rank.length = (v4 b₁ b₂ b₃ b₄).rank.length := rfl
      have octets : ∀ a b c d : UInt8, ∀ x ∈ [a.toNat, b.toNat, c.toNat, d.toNat], x < 256 := by
        simp only [List.mem_cons, List.not_mem_nil, or_false]
        rintro a b c d x (rfl | rfl | rfl | rfl) <;> exact UInt8.toNat_lt _
      have order : (v4 a₁ a₂ a₃ a₄).Before (v4 b₁ b₂ b₃ b₄) ↔
          (v4 a₁ a₂ a₃ a₄).rank < (v4 b₁ b₂ b₃ b₄).rank := by
        rw [rank, rank, List.cons_lt_cons_iff, or_iff_right (Nat.lt_irrefl 0), and_iff_right rfl]
        exact value_lt_iff rfl (octets _ _ _ _) (octets _ _ _ _)
      rw [append_lt_append_iff length, order, rank_inj_iff]
    | v6 groups => simp [rank, Before, List.cons_lt_cons_iff]
  | v6 groups =>
    cases b with
    | v4 b₁ b₂ b₃ b₄ => simp [rank, Before, List.cons_lt_cons_iff]
    | v6 groups' =>
      have eight : (groups.toList.map (·.toNat)).length = (groups'.toList.map (·.toNat)).length := by
        rw [List.length_map, List.length_map, groups.length_toList, groups'.length_toList]
      have length : (v6 groups).rank.length = (v6 groups').rank.length := congrArg Nat.succ eight
      have order : (v6 groups).Before (v6 groups') ↔ (v6 groups).rank < (v6 groups').rank := by
        rw [rank, rank, List.cons_lt_cons_iff, or_iff_right (Nat.lt_irrefl 1), and_iff_right rfl]
        exact value_lt_iff eight (fun _ => Groups.lt_of_mem_map_toNat) fun _ =>
          Groups.lt_of_mem_map_toNat
      rw [append_lt_append_iff length, order, rank_inj_iff]

end Address

namespace Endpoint

theorem rank_lt_iff (e e' : Endpoint) : e.rank < e'.rank ↔ e.Before e' :=
  Address.rank_append_lt_iff e.address e'.address e.port.toNat e'.port.toNat

theorem rank_inj {e e' : Endpoint} (h : e.rank = e'.rank) : e = e' := by
  obtain ⟨address, port⟩ := List.append_inj' h rfl
  cases e
  cases e'
  obtain rfl := Address.rank_inj address
  obtain rfl := UInt16.toNat_inj.1 (List.cons.inj port).1
  rfl

theorem before_irrefl (e : Endpoint) : ¬ e.Before e := by
  rw [← rank_lt_iff]
  exact List.lt_irrefl _

theorem before_trans {e e' e'' : Endpoint} (h : e.Before e') (h' : e'.Before e'') :
    e.Before e'' := by
  rw [← rank_lt_iff] at *
  exact List.lt_trans h h'

theorem before_total (e e' : Endpoint) : e.Before e' ∨ e = e' ∨ e'.Before e := by
  rw [← rank_lt_iff, ← rank_lt_iff]
  exact (Std.lt_trichotomy e.rank e'.rank).imp_right (.imp_left rank_inj)

instance : Std.Irrefl Before := ⟨before_irrefl⟩

instance : Std.Antisymm Before :=
  ⟨fun _ _ h h' => absurd (before_trans h h') (before_irrefl _)⟩

/-! ## Placing -/

theorem mem_place {e x : Endpoint} {l : List Endpoint} : x ∈ e.place l ↔ x = e ∨ x ∈ l := by
  induction l with
  | nil => simp [place]
  | cons y rest ih =>
    unfold place
    split
    · exact List.mem_cons
    · split
      · next same => simp [same]
      · rw [List.mem_cons, ih, List.mem_cons]
        exact or_left_comm

theorem pairwise_place {e : Endpoint} {l : List Endpoint} (h : l.Pairwise Before) :
    (e.place l).Pairwise Before := by
  induction l with
  | nil => exact List.pairwise_singleton _ _
  | cons y rest ih =>
    obtain ⟨first, later⟩ := List.pairwise_cons.1 h
    unfold place
    split
    · next less =>
      rw [rank_lt_iff] at less
      refine List.pairwise_cons.2 ⟨fun x hx => ?_, h⟩
      rcases List.mem_cons.1 hx with rfl | hx
      · exact less
      · exact before_trans less (first x hx)
    · next notLess =>
      rw [rank_lt_iff] at notLess
      split
      · exact h
      · next different =>
        have less : y.Before e := ((before_total e y).resolve_left notLess).resolve_left different
        refine List.pairwise_cons.2 ⟨fun x hx => ?_, ih later⟩
        rcases mem_place.1 hx with rfl | hx
        · exact less
        · exact first x hx

end Endpoint

/-! ## Answers -/

namespace Dns

variable (d : Dns)

/-- The answer names the endpoint; port 0 stands for the service port. -/
def Serves (answer : List Endpoint) (e : Endpoint) : Prop :=
  ∃ named ∈ answer, e.address = named.address ∧
    e.port = if named.port = 0 then d.port else named.port

variable {d}

theorem serves_iff {answer : List Endpoint} {e : Endpoint} :
    d.Serves answer e ↔ ∃ named ∈ answer, d.normalise named = e := by
  refine exists_congr fun named => and_congr_right fun _ => ?_
  obtain ⟨address, port⟩ := e
  obtain ⟨address', port'⟩ := named
  unfold normalise
  dsimp only
  split <;> rw [Endpoint.mk.injEq, eq_comm (a := address), eq_comm (a := port)]

/-- Only an empty answer names no endpoint. -/
theorem serves_none {answer : List Endpoint} : (∀ e, ¬ d.Serves answer e) ↔ answer = [] := by
  refine ⟨fun nobody => ?_, ?_⟩
  · cases answer with
    | nil => rfl
    | cons named rest => exact absurd (serves_iff.2 ⟨named, List.mem_cons_self, rfl⟩) (nobody _)
  · rintro rfl e ⟨named, mem, -⟩
    cases mem

theorem mem_foldl_place {answer placed : List Endpoint} {e : Endpoint} :
    e ∈ answer.foldl (fun placed e => (d.normalise e).place placed) placed ↔
      d.Serves answer e ∨ e ∈ placed := by
  induction answer generalizing placed with
  | nil => simp [Serves]
  | cons named rest ih =>
    rw [List.foldl_cons, ih, Endpoint.mem_place, serves_iff, serves_iff]
    simp only [List.mem_cons, exists_eq_or_imp, eq_comm (a := e)]
    rw [or_left_comm, or_assoc]

theorem mem_endpoints {answer : List Endpoint} {e : Endpoint} :
    e ∈ d.endpoints answer ↔ d.Serves answer e :=
  mem_foldl_place.trans (by simp)

theorem pairwise_endpoints (answer : List Endpoint) :
    (d.endpoints answer).Pairwise Endpoint.Before := by
  have placed : ∀ placed : List Endpoint, placed.Pairwise Endpoint.Before →
      (answer.foldl (fun placed e => (d.normalise e).place placed) placed).Pairwise
        Endpoint.Before := by
    induction answer with
    | nil => exact fun _ => id
    | cons named rest ih => exact fun placed h => ih _ (Endpoint.pairwise_place h)
  exact placed [] .nil

/-- The endpoints depend on nothing but what the answer names. -/
theorem endpoints_congr {answer answer' : List Endpoint}
    (same : ∀ e, d.Serves answer e ↔ d.Serves answer' e) :
    d.endpoints answer = d.endpoints answer' :=
  (pairwise_endpoints answer).eq_of_mem_iff (pairwise_endpoints answer') fun e => by
    rw [mem_endpoints, mem_endpoints, same]

/-- Different endpoints have different keys. -/
theorem nodup_keys_records (answer : List Endpoint) : ((d.records answer).map (·.key)).Nodup := by
  have different : (d.endpoints answer).Nodup := (pairwise_endpoints answer).nodup
  unfold records
  rw [List.map_map]
  refine different.map fun e e' same => ?_
  obtain ⟨address, port⟩ := PeerKey.ofEndpoint_write_inj.1 same
  cases e
  cases e'
  cases address
  cases port
  rfl

theorem srvRecords?_of_ne_nil {answer : List Endpoint} (filled : answer ≠ []) :
    d.srvRecords? (.ok answer) = some (d.records answer) := by
  cases answer with
  | nil => exact absurd rfl filled
  | cons => rfl

/-- **The records of an SRV answer are a canonical list.** There are none exactly for an empty answer and
an error. Otherwise there is a record for every endpoint that the answer names, where port 0 stands for
the service port, and no other; they ascend by address and port, and no two have the same key. Answers
that name the same endpoints give the same records, whatever their order, their repetitions and the way
they name the service port. -/
theorem srv_records_are_canonical (d : Dns) :
    (∀ answer, d.srvRecords? answer = none ↔ answer = .ok [] ∨ ∃ error, answer = .error error) ∧
    (∀ answer, answer ≠ [] → ∃ (endpoints : List Endpoint) (records : List Record),
      d.srvRecords? (.ok answer) = some records ∧
      records = endpoints.map (fun e => ⟨e.address.write, e.port, none, true⟩) ∧
      endpoints.Pairwise Endpoint.Before ∧ (∀ e, e ∈ endpoints ↔ d.Serves answer e) ∧
      (records.map (·.key)).Nodup) ∧
    ∀ answer answer', (∀ e, d.Serves answer e ↔ d.Serves answer' e) →
      d.srvRecords? (.ok answer) = d.srvRecords? (.ok answer') := by
  refine ⟨fun answer => ?_, fun answer filled => ?_, fun answer answer' same => ?_⟩
  · rcases answer with error | _ | ⟨e, rest⟩ <;> simp [srvRecords?]
  · exact ⟨d.endpoints answer, d.records answer, srvRecords?_of_ne_nil filled, rfl,
      pairwise_endpoints answer, fun e => mem_endpoints, nodup_keys_records answer⟩
  · have records_eq : d.records answer = d.records answer' := by
      rw [records, records, endpoints_congr same]
    have empty : answer = [] ↔ answer' = [] := by
      rw [← serves_none, ← serves_none]
      exact forall_congr' fun e => not_congr (same e)
    by_cases none : answer = []
    · rw [none, empty.1 none]
    · rw [srvRecords?_of_ne_nil none, srvRecords?_of_ne_nil (mt empty.2 none), records_eq]

/-- An answer out of order, with one endpoint named twice, once without its port. -/
def scattered : List Endpoint :=
  [⟨.v6 ⟨[0, 0, 0, 0, 0, 0, 0, 1], rfl⟩, 8888⟩, ⟨.v4 10 0 0 2, 0⟩, ⟨.v4 10 0 0 1, 7800⟩,
    ⟨.v4 10 0 0 2, 7800⟩]

/-- The same endpoints in order, each once. -/
def tidy : List Endpoint :=
  [⟨.v4 10 0 0 1, 0⟩, ⟨.v4 10 0 0 2, 7800⟩, ⟨.v6 ⟨[0, 0, 0, 0, 0, 0, 0, 1], rfl⟩, 8888⟩]

theorem scattered_is_tidied : scattered ≠ [] ∧
    (∀ e, Serves (aRecords 7800) scattered e ↔ Serves (aRecords 7800) tidy e) ∧
    srvRecords? (aRecords 7800) (.ok scattered) = srvRecords? (aRecords 7800) (.ok tidy) ∧
    ∃ endpoints : List Endpoint, endpoints.Pairwise Endpoint.Before ∧
      (∀ e, e ∈ endpoints ↔ Serves (aRecords 7800) scattered e) ∧
      endpoints.map (fun e => (PeerKey.ofEndpoint e.address.write e.port).text) =
        ["10.0.0.1:7800", "10.0.0.2:7800", "[::1]:8888"] := by
  obtain ⟨-, records, congr⟩ := srv_records_are_canonical (aRecords 7800)
  have filled : scattered ≠ [] := nofun
  have same : ∀ e, Serves (aRecords 7800) scattered e ↔ Serves (aRecords 7800) tidy e := by
    intro e
    rw [serves_iff, serves_iff]
    simp only [scattered, tidy, List.mem_cons, List.not_mem_nil, or_false, exists_eq_or_imp,
      exists_eq_left, normalise, aRecords]
    simp only [reduceIte]
    tauto
  obtain ⟨endpoints, _, resolved, rfl, ordered, complete, -⟩ := records scattered filled
  have shown : (srvRecords? (aRecords 7800) (.ok scattered)).map (·.map (·.key.text)) =
      some ["10.0.0.1:7800", "10.0.0.2:7800", "[::1]:8888"] := by decide +kernel
  rw [resolved, Option.map_some, List.map_map] at shown
  exact ⟨filled, same, congr _ _ same, endpoints, ordered, complete, Option.some.inj shown⟩

/-! ## Service names -/

/-- **Where the peers of a service name come from**: from what its SRV records lead to, if that is
anything, and otherwise from the addresses of the host, on the service port. -/
theorem list_sources {name : String} {records : List Record}
    (listed : d.list (.service name) = .ok records) : ∃ answer, records = d.records answer ∧
      ((answer ≠ [] ∧ ∃ srv ∈ d.srv, srv.lookup name = .ok answer) ∨
        (∀ srv ∈ d.srv, ∀ found, srv.lookup name = .ok found → found = []) ∧
          ∃ addresses, d.hosts name = .ok addresses ∧ answer = addresses.map (⟨·, d.port⟩)) := by
  unfold list at listed
  dsimp only at listed
  split at listed
  · next found hfound =>
    obtain rfl := Except.ok.inj listed
    obtain ⟨srv, hsrv, told⟩ := Option.bind_eq_some_iff.1 hfound
    cases answered : srv.lookup name with
    | error e =>
      rw [answered] at told
      cases told
    | ok answer =>
      have filled : answer ≠ [] := by
        rintro rfl
        rw [answered] at told
        cases told
      rw [answered, srvRecords?_of_ne_nil filled] at told
      exact ⟨answer, (Option.some.inj told).symm, .inl ⟨filled, srv, hsrv, answered⟩⟩
  · next silent =>
    unfold lookupHost at listed
    split at listed
    · cases listed
    · next addresses known =>
      refine ⟨_, (Except.ok.inj listed).symm, .inr ⟨fun srv hsrv found answered => ?_, _, known, rfl⟩⟩
      by_contra filled
      have told := Option.bind_eq_none_iff.1 silent srv hsrv
      rw [answered, srvRecords?_of_ne_nil filled] at told
      cases told

/-- A service name that is an IP literal stands for one peer on the service port. -/
theorem list_of_literal (known : d.ReadsLiterals) (plain : d.srv = none) {name : String}
    {address : Address} (read : Address.read? name = some address) :
    d.list (.service name) = .ok [.plain address.write d.port] := by
  have normal : d.normalise ⟨address, d.port⟩ = ⟨address, d.port⟩ := by
    unfold normalise
    split <;> rfl
  have one : d.records [⟨address, d.port⟩] = [.plain address.write d.port] := by
    rw [records, endpoints, List.foldl_cons, normal]
    rfl
  rw [list, plain]
  show d.lookupHost name = _
  rw [lookupHost, known name address read]
  exact congrArg Except.ok one

end Dns

end Roster
