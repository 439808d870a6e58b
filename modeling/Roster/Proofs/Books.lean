import Roster.Proofs.Outage

/-!
# Proofs.Books — the counters tell what happened

* `Members.books`: how far each counter of a membership is ahead of what it counts, how far its metric is
  ahead of it, and how many exclusions and returns are on record.
* `books_record`, `books_note`, `books_count`: what a notice, a happening and a count leave in the books.
* `Fair`: a listener that leaves in the books what it is told and nothing else. `tell_fair`: the
  listener with its reactions is one, whatever they ask for.
* `fail_books`, `fire_books`, `reconcile_books`: the operations balance what they tell and what they
  count.
* `Engine.books`: the same with the cycles that came to their end. `act_books`: a deed balances.
  `leads_books`: so does every run.
* `added_of_faithful`, `view_size`: who was added and not removed is healthy.
* `counters_tell_what_happened`: all of it, after every run from the start.
-/

namespace Roster

open Members

/-! ## What is counted -/

/-- The statistic that goes with a metric. -/
def Stats.of (s : Stats) : Counter → UInt64
  | .cycles => s.cycles
  | .resolutionFailures => s.resolutionFailures
  | .peerAdded => s.peersAdded
  | .peerRemoved => s.peersRemoved
  | .reconnects => s.reconnects
  | .peerExcluded => s.exclusions

/-- Two instances that agree in every counter agree. -/
theorem Stats.ext_of {s t : Stats} (h : ∀ c, s.of c = t.of c) : s = t := by
  cases s
  cases t
  exact Stats.mk.injEq .. ▸ ⟨h .cycles, h .resolutionFailures, h .peerAdded, h .peerRemoved,
    h .reconnects, h .peerExcluded⟩

/-- A timer brought a peer back. -/
def Happening.isReturn : Happening → Bool
  | .reconnected _ => true
  | _ => false

/-- A peer was given up for good. -/
def Happening.isExclusion : Happening → Bool
  | .excluded _ => true
  | _ => false

/-- The peer failed once too often. -/
def FailOutcome.isExclusion : FailOutcome → Bool
  | .excluded _ => true
  | _ => false

/-- A report was answered: the peer failed once too often. -/
def Reply.isExclusion : Reply → Bool
  | .failed outcome => outcome.isExclusion
  | _ => false

/-- The listener reported a peer failed that had failed once too often. -/
def Told.isExclusion : Told → Bool
  | .notice _ _ => false
  | .reply r => r.isExclusion

/-- The counters against what happened. -/
@[ext]
structure Books where
  /-- How far a counter is ahead of what it counts. -/
  ahead : Counter → UInt64
  /-- How far a metric is ahead of its counter. -/
  meters : Counter → UInt64
  /-- The exclusions on record that the listener did not cause. -/
  unheard : Int
  /-- The returns on record. -/
  returns : Nat

namespace Members

/-- How often the listener was told of a peer that entered the view. -/
def addedSoFar (m : Members) : Nat := m.notices.countP (·.2.isAdded)

/-- How often the listener was told of a peer that left the view. -/
def removedSoFar (m : Members) : Nat := m.notices.countP (!·.2.isAdded)

def returnsSoFar (m : Members) : Nat := m.history.countP (·.what.isReturn)

def exclusionsSoFar (m : Members) : Nat := m.history.countP (·.what.isExclusion)

/-- How often a report of the listener excluded a peer. -/
def exclusionsHeard (m : Members) : Nat := m.told.countP Told.isExclusion

/-- How often that which a counter counts happened to the members. Cycles do not happen to them. -/
def soFar (m : Members) : Counter → Nat
  | .cycles | .resolutionFailures => 0
  | .peerAdded => m.addedSoFar
  | .peerRemoved => m.removedSoFar
  | .reconnects => m.returnsSoFar
  | .peerExcluded => m.exclusionsSoFar

def books (m : Members) : Books where
  ahead c := m.tally.stats.of c - .ofNat (m.soFar c)
  meters c := m.tally.meters.value c - m.tally.stats.of c
  unheard := m.exclusionsSoFar - m.exclusionsHeard
  returns := m.returnsSoFar

end Members

namespace Books

/-- Nothing has happened yet. -/
def blank : Books := ⟨fun _ => 0, fun _ => 0, 0, 0⟩

/-- A counter was touched. -/
def counted (b : Books) (c : Counter) : Books :=
  { b with ahead := fun d => if d = c then b.ahead d + 1 else b.ahead d }

/-- Something happened that is to be counted. -/
def happened (b : Books) (c : Counter) : Books :=
  { b with ahead := fun d => if d = c then b.ahead d - 1 else b.ahead d }

/-- A report was answered. -/
def failed (b : Books) (excluded : Bool) : Books :=
  if excluded then { b with unheard := b.unheard + 1 } else b

/-- A timer went off. -/
def fired (b : Books) (back : Bool) : Books :=
  if back then { b with returns := b.returns + 1 } else b

/-- Something was put on record. -/
def noted (b : Books) : Happening → Books
  | .reconnected _ => (b.fired true).happened .reconnects
  | .excluded _ => (b.failed true).happened .peerExcluded
  | _ => b

/-- What happened and was counted leaves nothing in the books. -/
@[simp] theorem counted_happened (b : Books) (c : Counter) : (b.happened c).counted c = b := by
  unfold counted happened
  congr 1
  funext d
  dsimp only
  split
  · grind
  · rfl

@[simp] theorem happened_counted (b : Books) (c : Counter) : (b.counted c).happened c = b := by
  unfold counted happened
  congr 1
  funext d
  dsimp only
  split
  · grind
  · rfl

end Books

/-- What counts the notices of this kind. -/
def Notice.counter : Notice → Counter
  | .added _ => .peerAdded
  | .removed _ => .peerRemoved

/-! ## One entry at a time -/

section Entries

variable (m : Members)

/-- Something happened once more than before. -/
theorem ahead_happened {m' : Members} {c : Counter} (tally : m'.tally = m.tally)
    (once : ∀ d, m'.soFar d = if d = c then m.soFar d + 1 else m.soFar d) :
    m'.books.ahead = (m.books.happened c).ahead := by
  funext d
  simp only [books, Books.happened, tally, once]
  split
  · rw [UInt64.ofNat_add]
    grind
  · rfl

theorem books_record (n : Notice) : (record n m).books = m.books.happened n.counter := by
  cases n with
  | added r =>
    have added : (record (.added r) m).addedSoFar = m.addedSoFar + 1 := List.countP_cons_of_pos rfl
    exact Books.ext (ahead_happened m rfl fun d => by cases d <;> first | rfl | exact added) rfl rfl rfl
  | removed key =>
    have removed : (record (.removed key) m).removedSoFar = m.removedSoFar + 1 :=
      List.countP_cons_of_pos rfl
    exact Books.ext (ahead_happened m rfl fun d => by cases d <;> first | rfl | exact removed) rfl rfl rfl

theorem books_note (what : Happening) : (m.note what).books = m.books.noted what := by
  cases what with
  | reconnected key =>
    have returns : (m.note (.reconnected key)).returnsSoFar = m.returnsSoFar + 1 :=
      List.countP_cons_of_pos rfl
    refine Books.ext ?_ rfl rfl returns
    exact ahead_happened m rfl fun d => by cases d <;> first | rfl | exact returns
  | excluded key =>
    have exclusions : (m.note (.excluded key)).exclusionsSoFar = m.exclusionsSoFar + 1 :=
      List.countP_cons_of_pos rfl
    refine Books.ext ?_ rfl ?_ rfl
    · exact ahead_happened m rfl fun d => by cases d <;> first | rfl | exact exclusions
    · show ((m.note (.excluded key)).exclusionsSoFar : Int) - m.exclusionsHeard =
        m.exclusionsSoFar - m.exclusionsHeard + 1
      omega
  | _ => rfl

theorem books_reply (reply : Reply) {b : Books} (h : m.books = b.failed reply.isExclusion) :
    { m with told := .reply reply :: m.told }.books = b := by
  have heard : { m with told := .reply reply :: m.told }.exclusionsHeard =
      m.exclusionsHeard + if reply.isExclusion then 1 else 0 := List.countP_cons
  have same : { m with told := .reply reply :: m.told }.books =
      { m.books with unheard := m.books.unheard - if reply.isExclusion then 1 else 0 } := by
    refine Books.ext rfl rfl ?_ rfl
    show (m.exclusionsSoFar : Int) - _ = (m.exclusionsSoFar : Int) - m.exclusionsHeard - _
    rw [heard]
    split <;> omega
  rw [same, h]
  unfold Books.failed
  split
  · simp
  · simp

/-! ### Counts -/

/-- The function adds one to this counter and to its metric. -/
def Touches (f : Tally → Tally) (c : Counter) : Prop := ∀ t d,
  (f t).stats.of d = (if d = c then t.stats.of d + 1 else t.stats.of d) ∧
    (f t).meters.value d = if d = c then t.meters.value d + 1 else t.meters.value d

theorem books_count {f : Tally → Tally} {c : Counter} (touches : Touches f c) :
    (m.count f).books = m.books.counted c := by
  refine Books.ext (funext fun d => ?_) (funext fun d => ?_) rfl rfl
  · show (f m.tally).stats.of d - .ofNat (m.soFar d) = if d = c then _ else _
    rw [(touches m.tally d).1]
    split
    · show _ = m.tally.stats.of d - .ofNat (m.soFar d) + 1
      grind
    · rfl
  · show (f m.tally).meters.value d - (f m.tally).stats.of d =
      m.tally.meters.value d - m.tally.stats.of d
    rw [(touches m.tally d).1, (touches m.tally d).2]
    split
    · grind
    · rfl

/-- A function that increments a metric and adds one to the counter of it. -/
theorem touches_of_increment {f : Tally → Tally} {c : Counter}
    (meters : ∀ t, (f t).meters = t.meters.increment c)
    (stats : ∀ t d, (f t).stats.of d = if d = c then t.stats.of d + 1 else t.stats.of d) :
    Touches f c := fun t d => ⟨stats t d, by
  rw [meters, Meters.value_increment]
  split
  · next hd => rw [hd]
  · rfl⟩

theorem touches_cycle : Touches Tally.cycle .cycles :=
  touches_of_increment (fun _ => rfl) fun _ d => by cases d <;> rfl

theorem touches_resolutionFailure : Touches Tally.resolutionFailure .resolutionFailures :=
  touches_of_increment (fun _ => rfl) fun _ d => by cases d <;> rfl

theorem touches_added : Touches Tally.added .peerAdded :=
  touches_of_increment (fun _ => rfl) fun _ d => by cases d <;> rfl

theorem touches_removed : Touches Tally.removed .peerRemoved :=
  touches_of_increment (fun _ => rfl) fun _ d => by cases d <;> rfl

theorem touches_exclusion : Touches Tally.exclusion .peerExcluded :=
  touches_of_increment (fun _ => rfl) fun _ d => by cases d <;> rfl

/-- A return is an announcement too. -/
theorem books_reconnect :
    (m.count Tally.reconnect).books = (m.books.counted .peerAdded).counted .reconnects := by
  have touches : Touches (fun t => ⟨{ t.stats with reconnects := t.stats.reconnects + 1 },
      t.meters.increment .reconnects⟩) .reconnects :=
    touches_of_increment (fun _ => rfl) fun _ d => by cases d <;> rfl
  have both : m.count Tally.reconnect = (m.count Tally.added).count fun t =>
    ⟨{ t.stats with reconnects := t.stats.reconnects + 1 }, t.meters.increment .reconnects⟩ := rfl
  rw [both, books_count _ touches, books_count _ touches_added]

theorem books_resolved (tracked : Nat) : (m.count (·.resolved tracked)).books = m.books := rfl

/-! ### What is not counted -/

@[simp] theorem books_write (remark : Remark) : (m.write remark).books = m.books := rfl

@[simp] theorem books_setSlot (key : PeerKey) (slot : Slot) : (m.setSlot key slot).books = m.books := rfl

theorem books_exclude (key : PeerKey) : (m.exclude key).books = m.books := by
  unfold exclude
  split <;> rfl

theorem books_discard (key : PeerKey) : (m.discard key).books = m.books := by
  unfold Members.discard
  split
  · split <;> rfl
  · rfl

theorem books_pardon (key : PeerKey) : (m.pardon key).2.books = m.books := books_note _ _

theorem books_close : m.close.books = m.books := books_note _ _

theorem books_upsert (r : Record) : (m.upsert r).2.books = m.books := by
  unfold upsert
  dsimp only
  split
  · rfl
  · split
    · rfl
    · split
      · exact books_note _ _
      · split <;> rfl

theorem books_remove (key : PeerKey) : (m.remove key).2.books = m.books := by
  unfold remove
  split
  · rfl
  · split
    · rfl
    · exact books_note _ _

end Entries

/-! ## Operations -/

theorem afterFailure_books (m : Members) (key : PeerKey) (peer : Tracked) (delay : Duration) :
    (m.afterFailure key peer delay).2.books =
      m.books.failed (m.afterFailure key peer delay).1.isExclusion := by
  unfold afterFailure
  split
  · dsimp only
    rw [books_note, books_discard, books_count _ touches_exclusion, books_exclude, books_write]
    exact Books.happened_counted (m.books.failed true) _
  · dsimp only
    rw [books_note]
    split <;> rfl

/-- The listener leaves in the books what it is told, and nothing else. -/
def Fair (tell : Tell) : Prop := ∀ n m, (tell n m).books = m.books.happened n.counter

section Tell

variable {tell : Tell} (fair : Fair tell) (m : Members)
include fair

/-- A notice that is told and counted leaves nothing in the books. -/
theorem notice_balances (n : Notice) {f : Tally → Tally} (touches : Touches f n.counter) :
    ((tell n m).count f).books = m.books := by
  rw [books_count _ touches, fair, Books.counted_happened]

theorem fail_books (key : PeerKey) :
    (m.fail tell key).2.books = m.books.failed (m.fail tell key).1.isExclusion := by
  unfold Members.fail
  split
  · rfl
  · split
    · rfl
    · dsimp only
      rw [afterFailure_books, notice_balances fair _ (.removed key) touches_removed]
      rfl

theorem reconnect_books (key : PeerKey) (epoch : Nat) :
    (m.reconnect tell key epoch).2.books = m.books.fired (m.reconnect tell key epoch).1 := by
  unfold Members.reconnect
  split
  · rfl
  · split
    · rfl
    · dsimp only
      rw [books_reconnect, fair, books_write, books_note, books_setSlot]
      show (((((m.books.fired true).happened .reconnects).happened .peerAdded).counted
        .peerAdded).counted .reconnects) = m.books.fired true
      rw [Books.counted_happened, Books.counted_happened]

theorem fire_books (timer : Nat) :
    (m.fire tell timer).2.books = m.books.fired (m.fire tell timer).1 := by
  unfold Members.fire
  split
  · rfl
  · exact reconnect_books fair _ _ _

theorem present_books (r : Record) : (m.present tell r).2.books = m.books := by
  unfold Members.present
  dsimp only
  split
  · rfl
  · split
    · exact (notice_balances fair _ (.added _) touches_added).trans (books_note _ _)
    · split
      · exact books_note _ _
      · rfl

/-! ### Cycles -/

theorem withdraw_books (key : PeerKey) : (m.withdraw tell key).2.books = m.books := by
  have removed := books_remove m key
  unfold Members.withdraw
  split
  · next heq => rwa [heq] at removed
  · next peer m' heq =>
    rw [heq] at removed
    dsimp only
    split
    · exact removed
    · exact (notice_balances fair m' (.removed key) touches_removed).trans removed

theorem keep_books (e : PeerKey × Record) : (keep tell e m).2.books = m.books := by
  have kept := present_books fair m e.2
  unfold keep
  split
  · next heq => rwa [heq] at kept
  · next heq => rwa [heq] at kept

theorem announce_books (key : PeerKey) : (m.announce tell key).2.books = m.books := by
  unfold Members.announce
  split
  · rfl
  · next slot _ =>
    split
    · rfl
    · exact (books_write _ _).trans (notice_balances fair m (.added slot.peer.record) touches_added)

theorem enrol_books (e : PeerKey × Record) : (enrol tell e m).2.books = m.books := by
  have tracked := books_upsert m e.2
  unfold enrol
  split
  · next heq =>
    rw [heq] at tracked
    exact (announce_books fair _ _).trans tracked
  · next heq => rwa [heq] at tracked

omit fair in
theorem sweep_books {α : Type} {step : α → Members → Bool × Members}
    (balances : ∀ a m, (step a m).2.books = m.books) (l : List α) :
    (sweep step l m).2.books = m.books := by
  induction l generalizing m with
  | nil => rfl
  | cons a rest ih => exact (ih _).trans (balances a m)

theorem reconcile_books (candidates : KeyMap Record) :
    (m.reconcile tell candidates).2.books = m.books := by
  unfold Members.reconcile
  dsimp only
  rw [books_note, sweep_books _ fun e m => enrol_books fair m e,
    sweep_books _ fun e m => keep_books fair m e, sweep_books _ fun k m => withdraw_books fair m k,
    books_note]
  rfl

/-! ## The listener -/

theorem perform_books (request : Request) : (m.perform tell request).2.books =
    m.books.failed (m.perform tell request).1.isExclusion := by
  cases request with
  | upsert r => exact books_upsert m r
  | remove key => exact books_remove m key
  | fail key => exact fail_books fair m key
  | present r => exact present_books fair m r
  | pardon key => exact books_pardon m key
  | close => exact books_close m
  | _ => rfl

theorem react_books (request : Request) : (react tell m request).books = m.books := by
  unfold react
  dsimp only
  exact books_reply _ _ (perform_books fair m request)

theorem foldl_react_books (requests : List Request) :
    (requests.foldl (react tell) m).books = m.books := by
  induction requests generalizing m with
  | nil => rfl
  | cons request rest ih => exact (ih _).trans (react_books fair m request)

end Tell

theorem tellWithin_fair : ∀ depth, Fair (tellWithin depth)
  | 0 => fun n m => books_record m n
  | depth + 1 => fun n m => by
    rw [tellWithin]
    dsimp only
    split
    · exact books_record m n
    · exact (foldl_react_books (tellWithin_fair depth) _ _).trans (books_record m n)

/-- **The listener with its reactions is fair**, whatever they ask for. -/
theorem tell_fair : Fair Members.tell := fun n m => tellWithin_fair m.reactions.length n m

/-! ## Cycles -/

/-- A cycle that came to its end was counted. -/
def Books.concluded (b : Books) : CycleResult → Books
  | .ok report =>
    if report.resolved then b.counted .cycles else (b.counted .resolutionFailures).counted .cycles
  | .error _ => b

namespace Engine

variable {config : Config} {e e' : Engine} {run : Run}

/-- The cycle came to its end with a report. -/
def isReport : CycleResult → Bool
  | .ok _ => true
  | .error _ => false

/-- The report is that of a cycle without an answer. -/
def isUnresolved : CycleResult → Bool
  | .ok report => !report.resolved
  | .error _ => false

/-- How many cycles came to their end with a report. -/
def reports (e : Engine) : Nat := e.results.countP (isReport ·.2)

def outages (e : Engine) : Nat := e.results.countP (isUnresolved ·.2)

/-- How often that which a counter counts happened to the engine itself. -/
def ended (e : Engine) : Counter → Nat
  | .cycles => e.reports
  | .resolutionFailures => e.outages
  | _ => 0

/-- The books, with the counts of cycles against their outcomes. -/
def books (e : Engine) : Books :=
  { e.members.books with ahead := fun c => e.members.books.ahead c - .ofNat (e.ended c) }

theorem ended_congr (results : e'.results = e.results) : e'.ended = e.ended := by
  unfold ended reports outages
  rw [results]

theorem books_of_members (members : e'.members.books = e.members.books)
    (results : e'.results = e.results) : e'.books = e.books := by
  unfold books
  rw [members, ended_congr results]

theorem Aside.books (a : Aside e e') : e'.books = e.books :=
  books_of_members (congrArg _ a.members) a.results

/-! ### Outcomes -/

/-- A cycle that is counted as it comes to its end leaves nothing in the books. -/
theorem books_result {id : Nat} {result : CycleResult}
    (results : e'.results = (id, result) :: e.results)
    (members : e'.members.books = e.members.books.concluded result) : e'.books = e.books := by
  have reports : e'.reports = e.reports + if isReport result then 1 else 0 := by
    rw [Engine.reports, results]
    exact List.countP_cons
  have outages : e'.outages = e.outages + if isUnresolved result then 1 else 0 := by
    rw [Engine.outages, results]
    exact List.countP_cons
  have ahead : ∀ c, (e.members.books.concluded result).ahead c - .ofNat (e'.ended c) =
      e.members.books.ahead c - .ofNat (e.ended c) := by
    have both : ∀ a n : UInt64, a + 1 - (n + 1) = a - n := by grind
    intro c
    cases result with
    | error => cases c <;> simp [ended, reports, outages, isReport, isUnresolved, Books.concluded]
    | ok report =>
      cases hr : report.resolved <;> cases c <;>
        simp [ended, reports, outages, isReport, isUnresolved, Books.concluded, Books.counted, hr, both]
  have others : e'.members.books = { e.members.books with ahead := e'.members.books.ahead } := by
    rw [members]
    unfold Books.concluded
    split
    · split <;> rfl
    · rfl
  unfold books
  rw [others, members, funext ahead]

theorem settleRelease_books (e : Engine) : e.settleRelease.members.books = e.members.books := by
  rcases settleRelease_members e with ⟨same, -⟩ | ⟨closed, -⟩
  · rw [same]
  · rw [closed, books_close]

theorem finish_books (e : Engine) (run : Run) (result : CycleResult) :
    (e.finish run result).members.books = e.members.books := by
  rcases finish_members e run result with ⟨same, -⟩ | ⟨closed, -⟩
  · rw [same]
  · rw [closed, books_close]

theorem unresolve_books (e : Engine) :
    e.unresolve.2.members.books = e.members.books.concluded (.ok .unresolved) := by
  have members : e.unresolve.2.members = ((e.members.write (.unresolved e.directory.describe
      e.config.selector.text e.retry.attempts)).count Tally.resolutionFailure).count Tally.cycle := rfl
  rw [members, books_count _ touches_cycle, books_count _ touches_resolutionFailure, books_write]
  rfl

theorem resolve_books (e : Engine) (answer : List Record) :
    (e.resolve answer).2.members.books = e.members.books.concluded (.ok (e.resolve answer).1) ∧
      (e.resolve answer).2.results = e.results := by
  obtain ⟨journal, hb⟩ := briefed_eq e answer
  have counted : ∀ b m, (Engine.counted b m).members.books = m.books.counted .cycles := fun b m =>
    (books_resolved _ _).trans (books_count m touches_cycle)
  rw [resolve_eq]
  refine ⟨?_, ?_⟩
  · rw [counted, reconcile_books tell_fair, hb]
    rfl
  · rw [hb]
    rfl

/-- A cycle that comes to its end counts once, and its failure with it. -/
theorem conclude_books (e : Engine) (run : Run) (outcome : Except DiscoveryError (List Record)) :
    (e.conclude run outcome).books = e.books := by
  cases outcome with
  | ok answer =>
    obtain ⟨members, results⟩ := resolve_books e answer
    have finishes : e.conclude run (.ok answer) =
        (e.resolve answer).2.finish run (.ok (e.resolve answer).1) := rfl
    rw [finishes]
    refine books_result ((finish_runs _ run _).2.2.1.trans (by rw [results])) ?_
    rw [finish_books, members]
  | error error =>
    cases hc : error.isCancelled with
    | true =>
      rw [conclude_stopped run hc]
      exact books_result (finish_runs e run _).2.2.1 (finish_books e run _)
    | false =>
      rw [conclude_failed run hc]
      refine books_result (finish_runs _ run _).2.2.1 ?_
      rw [finish_books, unresolve_books]
      rfl

theorem resumeRun_books (e : Engine) (run : Run) (heeds : Bool) :
    (e.resumeRun run heeds).books = e.books := by
  rcases resumeRun_cases run heeds with aside | ⟨outcome, heq⟩
  · exact aside.books
  · rw [heq]
    exact conclude_books e run outcome

theorem startRun_books (e : Engine) (id : Nat) : (e.startRun id).books = e.books := by
  unfold startRun
  split
  · exact Aside.books (takeTurn_aside id)
  · obtain ⟨_, _, _, _, _, heq, -⟩ := settleRelease_eq
      { e.dropRun id with results := (id, .error .shutdown) :: e.results }
    refine books_result (?_ : _ = (id, .error .shutdown) :: _) (settleRelease_books _)
    rw [heq]

/-! ## Deeds -/

/-- The deed makes a timer bring a peer back. -/
def bringsBack (e : Engine) : Deed → Bool
  | .turn (.arm timer) _ =>
    (e.members.timers.find? (·.id == timer)).any (·.due ≤ e.now) &&
      (e.members.fire Members.tell timer).1
  | .turn (.fire timer) _ => (e.members.fire Members.tell timer).1
  | _ => false

/-- The deed reports a failure and excludes a peer. -/
def dismisses (e : Engine) : Deed → Bool
  | .fail key => (e.fail key).1.isExclusion
  | _ => false

/-- How many deeds are such, the latest first. -/
def times (e : Engine) (such : Engine → Deed → Bool) : List Deed → Nat
  | [] => 0
  | deed :: deeds => e.times such deeds + if such (e.after deeds) deed then 1 else 0

theorem books_fired {back : Bool} (members : e'.members.books = e.members.books.fired back)
    (results : e'.results = e.results) : e'.books = e.books.fired back := by
  unfold books
  rw [members, ended_congr results]
  cases back <;> rfl

theorem books_failed {excluded : Bool} (members : e'.members.books = e.members.books.failed excluded)
    (results : e'.results = e.results) : e'.books = e.books.failed excluded := by
  unfold books
  rw [members, ended_congr results]
  cases excluded <;> rfl

theorem armTimer_books (e : Engine) (timer : Nat) :
    (e.armTimer timer).books = e.books.fired (e.bringsBack (.turn (.arm timer))) := by
  have back : e.bringsBack (.turn (.arm timer)) =
      ((e.members.timers.find? (·.id == timer)).any (·.due ≤ e.now) &&
        (e.members.fire Members.tell timer).1) := rfl
  rw [back]
  unfold armTimer
  split
  · next none => rw [none]; rfl
  · next t found =>
    rw [found, Option.any_some]
    split
    · next due =>
      rw [decide_eq_true due, Bool.true_and]
      exact books_fired (fire_books tell_fair e.members timer) rfl
    · next early =>
      rw [decide_eq_false early]
      rfl

/-- **A deed balances.** It leaves the books as they are, but for a peer that comes back by its timer
and for one that is excluded when somebody reports it. -/
theorem act_books (e : Engine) (deed : Deed) :
    (e.act deed).books = (e.books.fired (e.bringsBack deed)).failed (e.dismisses deed) := by
  have same : e.bringsBack deed = false → e.dismisses deed = false → (e.act deed).books = e.books →
      (e.act deed).books = (e.books.fired (e.bringsBack deed)).failed (e.dismisses deed) :=
    fun back excluded same => by
      rw [same, back, excluded]
      rfl
  cases deed with
  | turn job heeds =>
    cases job with
    | arm timer => exact armTimer_books { e with ready := e.ready.erase (.arm timer) } timer
    | fire timer => exact books_fired (fire_books tell_fair e.members timer) rfl
    | start id => exact startRun_books { e with ready := e.ready.erase (.start id) } id
    | resume id =>
      refine same rfl rfl ?_
      unfold act Engine.step
      dsimp only
      split
      · exact resumeRun_books _ _ heeds
      · rfl
    | loop => exact same rfl rfl (Aside.books ((erase_aside rfl).trans resumeLoop_aside))
  | wait time =>
    obtain ⟨woken, heq, -⟩ := jump_eq e time
    refine same rfl rfl ?_
    rw [act, heq]
    rfl
  | call =>
    refine same rfl rfl ?_
    rw [act]
    rcases call_eq e with ⟨-, heq⟩ | ⟨-, heq⟩
    · rw [heq]
      exact Aside.books ((newRun_aside false).trans (takeTurn_aside _))
    · rw [heq]
  | spawn => exact same rfl rfl (Aside.books ((newRun_aside false).trans (wake_aside rfl)))
  | fail key => exact books_failed (fail_books tell_fair e.members key) rfl
  | pardon key =>
    refine same rfl rfl ?_
    rw [act, Engine.pardon]
    dsimp only
    split
    · exact books_of_members (books_pardon e.members key) rfl
    · exact books_of_members (books_pardon e.members key) rfl
  | cancel =>
    obtain ⟨channel, woken, heq⟩ := cancel_eq e
    refine same rfl rfl ?_
    rw [act, heq]
    rfl
  | stop =>
    obtain ⟨aborted, woken, heq⟩ := silence_eq e
    refine same rfl rfl ?_
    rw [act, Engine.stop]
    split
    · exact books_of_members (by rw [heq]; exact books_close e.members) (by rw [heq]; rfl)
    · exact books_of_members (by rw [heq]; exact books_close e.members) (by rw [heq])
  | release =>
    obtain ⟨_, _, _, _, _, heq, -⟩ := settleRelease_eq { e with released := true }
    refine same rfl rfl (books_of_members (settleRelease_books _) ?_)
    rw [act, release, heq]
  | serve directory => exact same rfl rfl rfl

/-- **So does every run.** -/
theorem leads_books {deeds : List Deed} (l : Leads e deeds e') :
    e'.books = { e.books with
      unheard := e.books.unheard + e.times dismisses deeds
      returns := e.books.returns + e.times bringsBack deeds } := by
  induction l with
  | start => simp [times]
  | @next deeds e' before deed allowed ih =>
    rw [act_books, ih, times, times, ← before.eq_after]
    unfold Books.fired Books.failed
    cases e'.bringsBack deed <;> cases e'.dismisses deed <;> simp <;> omega

theorem start_books {directory : Directory} {reactions : List Reaction}
    (h : start config directory reactions = .ok e) : e.books = .blank := by
  have even : (0 : UInt64) - 0 = 0 := UInt64.sub_self 0
  have nothing : ∀ journal, { Members.initial config.policy config.initialReconnectDelay reactions with
      journal }.books = .blank := fun journal =>
    Books.ext (funext fun c => by cases c <;> exact even) (funext fun c => by cases c <;> exact even)
      rfl rfl
  have members : e.members.books = .blank := by
    obtain ⟨-, journal, -, -, -, -, hm⟩ := start_eq h
    rw [hm, nothing]
  have results : e.results = [] := by
    unfold start at h
    split at h
    · cases h
    · split at h
      · cases h
      · obtain rfl := Except.ok.inj h
        rfl
  have ended : ∀ c, e.ended c = 0 := fun c => by
    cases c <;> simp [ended, reports, outages, results]
  refine Books.ext (funext fun c => ?_) ?_ ?_ ?_
  · show e.members.books.ahead c - .ofNat (e.ended c) = 0
    rw [members, ended]
    exact even
  · exact (congrArg Books.meters members :)
  · exact (congrArg Books.unheard members :)
  · exact (congrArg Books.returns members :)

end Engine

/-! ## The healthy peers -/

/-- Of two maps one has one key more. -/
theorem KeyMap.size_of_one_more {α β : Type} {m : KeyMap α} {m' : KeyMap β} {k : PeerKey}
    (other : m.contains k = false) (h : ∀ k', m'.contains k' = (decide (k' = k) || m.contains k')) :
    m'.size = m.size + 1 := by
  have fresh : (k :: m.keys).Nodup := by
    refine List.nodup_cons.2 ⟨fun hk => ?_, m.keys_nodup⟩
    rw [mem_keys, other] at hk
    cases hk
  have perm : m'.keys.Perm (k :: m.keys) :=
    (List.perm_ext_iff_of_nodup m'.keys_nodup fresh).2 fun k' => by
      rw [mem_keys, h, List.mem_cons, mem_keys, Bool.or_eq_true, decide_eq_true_iff]
  have lengths := perm.length_eq
  rwa [List.length_cons, keys, keys, List.length_map, List.length_map] at lengths

/-- Who was added and not removed is in the view. -/
theorem added_of_faithful {told : List Told} (h : Faithful told) :
    (told.filterMap Told.notice?).countP (·.2.isAdded) =
      (told.filterMap Told.notice?).countP (!·.2.isAdded) + (viewOf told).size := by
  induction told with
  | nil => rfl
  | cons x past ih =>
    cases x with
    | reply reply => exact ih h
    | notice time n =>
      obtain ⟨changes, before⟩ := h
      have ih := ih before
      have notices : (Told.notice time n :: past).filterMap Told.notice? =
        (time, n) :: past.filterMap Told.notice? := rfl
      rw [notices]
      cases n with
      | added r =>
        have grows : (viewOf (.notice time (.added r) :: past)).size = (viewOf past).size + 1 :=
          KeyMap.size_of_one_more (by simpa [Notice.isAdded, Notice.key] using changes.symm)
            fun k' => KeyMap.contains_insert _ _ _ _
        rw [List.countP_cons_of_pos rfl, List.countP_cons_of_neg (by simp [Notice.isAdded]), grows, ih]
        rfl
      | removed key =>
        have inView : (viewOf past).contains key = true := by
          simpa [Notice.isAdded, Notice.key] using changes.symm
        have shrinks : (viewOf past).size = (viewOf (.notice time (.removed key) :: past)).size + 1 := by
          refine KeyMap.size_of_one_more (k := key) (by simp [viewOf, KeyMap.contains_erase]) fun k' => ?_
          rw [viewOf, KeyMap.contains_erase]
          by_cases hk : k' = key
          · rw [hk, inView]
            simp
          · simp [hk]
        rw [List.countP_cons_of_neg (by simp [Notice.isAdded]), List.countP_cons_of_pos rfl, ih, shrinks]
        omega

/-- The peers in the view are the healthy ones. -/
theorem view_size {m : Members} (sound : Sound ⟨[], m⟩) (mirror : Mirror m) (running : m.closed = false) :
    m.view.size = m.snapshot.countP (!·.failed) := by
  have all : m.snapshot = m.slots.entries.map (·.2.peer) :=
    snapshot_of_live fun e he => (sound.own e.1 e.2 (KeyMap.find?_eq_some_iff.2 he)).1
  have perm : m.view.keys.Perm ((m.slots.entries.filter (!·.2.peer.failed)).map (·.1)) := by
    refine (List.perm_ext_iff_of_nodup m.view.keys_nodup (m.slots.nodup_keys_filter _)).2 fun k => ?_
    rw [KeyMap.mem_keys, mirror.view running, isHealthy, List.mem_map]
    constructor
    · intro healthy
      split at healthy
      · next slot hs =>
        exact ⟨(k, slot), List.mem_filter.2 ⟨KeyMap.find?_eq_some_iff.1 hs, healthy⟩, rfl⟩
      · cases healthy
    · rintro ⟨⟨k', slot⟩, he, rfl⟩
      obtain ⟨he, healthy⟩ := List.mem_filter.1 he
      rw [KeyMap.find?_eq_some_iff.2 he]
      exact healthy
  have lengths := perm.length_eq
  rw [KeyMap.keys, List.length_map, List.length_map, ← List.countP_eq_length_filter] at lengths
  rw [all, List.countP_map]
  exact lengths

namespace Engine

variable {config : Config} {e₀ e : Engine}

/-- **The counters tell what happened.** After any run from the start, whatever the listener does in
answer to notices, the counters are, as 64-bit words: the cycles that came to their end with a report;
those whose report is that of an outage; the notices of an added peer; those of a removed one; the timers
that brought a peer back; the reports of a failure, by whoever they were made, that excluded a peer. Every
metric stands where its counter does. Until the end, if the listener does no more to the members than
report failures, the notices of one kind minus those of the other are the tracked peers that did not
fail. -/
theorem counters_tell_what_happened {directory : Directory} {reactions : List Reaction}
    {deeds : List Deed} (h₀ : start config directory reactions = .ok e₀) (l : Leads e₀ deeds e) :
    e.members.tally.stats = {
      cycles := .ofNat e.reports
      resolutionFailures := .ofNat e.outages
      peersAdded := .ofNat e.members.addedSoFar
      peersRemoved := .ofNat e.members.removedSoFar
      reconnects := .ofNat (e₀.times bringsBack deeds)
      exclusions := .ofNat (e₀.times dismisses deeds + e.members.exclusionsHeard) } ∧
    ((∀ r ∈ reactions, r.OnlyReports) → e.running = true →
      e.members.tally.stats.peersAdded - e.members.tally.stats.peersRemoved =
        .ofNat (e.members.snapshot.countP (!·.failed))) ∧
    ∀ c, e.members.tally.meters.value c = e.members.tally.stats.of c := by
  have books := leads_books l
  rw [start_books h₀] at books
  have even : ∀ {a b : UInt64}, a - b = 0 → a = b := by grind
  have counts : ∀ c, e.members.tally.stats.of c = .ofNat (e.members.soFar c + e.ended c) := fun c => by
    have ahead : e.members.tally.stats.of c - .ofNat (e.members.soFar c) - .ofNat (e.ended c) = 0 :=
      congrFun (congrArg Books.ahead books) c
    rw [UInt64.ofNat_add]
    grind
  have returns : e.members.returnsSoFar = 0 + e₀.times bringsBack deeds :=
    congrArg Books.returns books
  have unheard : (e.members.exclusionsSoFar : Int) - e.members.exclusionsHeard =
    0 + e₀.times dismisses deeds := congrArg Books.unheard books
  have meters : ∀ c, e.members.tally.meters.value c - e.members.tally.stats.of c = 0 :=
    congrFun (congrArg Books.meters books)
  have excluded : e.members.exclusionsSoFar = e₀.times dismisses deeds + e.members.exclusionsHeard := by
    omega
  refine ⟨?_, fun reports running => ?_, fun c => even (meters c)⟩
  · rw [Nat.zero_add] at returns
    refine Stats.ext_of fun c => (counts c).trans ?_
    cases c with
    | cycles => exact congrArg UInt64.ofNat (Nat.zero_add _)
    | resolutionFailures => exact congrArg UInt64.ofNat (Nat.zero_add _)
    | peerAdded => rfl
    | peerRemoved => rfl
    | reconnects => exact congrArg UInt64.ofNat returns
    | peerExcluded => exact congrArg UInt64.ofNat excluded
  · have h : Reachable config e := ⟨directory, reactions, e₀, deeds, reports, h₀, l⟩
    have mirror : Mirror e.members := h.keeps Mirror.lasting fun _ => Mirror.initial _ _ _
    have open' := h.orderly.open_of_running running
    have added : e.members.tally.stats.peersAdded = .ofNat e.members.addedSoFar := counts .peerAdded
    have removed : e.members.tally.stats.peersRemoved = .ofNat e.members.removedSoFar :=
      counts .peerRemoved
    have balance : e.members.addedSoFar = e.members.removedSoFar + e.members.view.size :=
      added_of_faithful mirror.faithful
    rw [added, removed, balance, UInt64.ofNat_add, view_size h.orderly.sound mirror open']
    grind

/-- One peer comes back by its timer, one is excluded by a report and another by the listener in answer
to it, and the second cycle is an outage. -/
theorem counters_after_exclusions :
    let config := (Config.standard.set (.maxReconnectAttempts 1)).set (.operationAttempts 1)
    let directory : Directory := .scripted
      ⟨[⟨.ok [.plain "a" 0, .plain "b" 0, .plain "c" 0], .zero⟩], some ⟨.error (.directory "down"), .zero⟩⟩
    let reactions : List Reaction := [⟨false, ⟨"a"⟩, [.fail ⟨"b"⟩]⟩]
    let deeds : List Deed := [.turn .loop, .turn (.resume 0), .turn (.resume 0), .fail ⟨"c"⟩,
      .turn (.arm 0), .wait 1000000000, .turn (.fire 0), .fail ⟨"a"⟩, .call, .turn (.resume 1),
      .turn (.resume 1), .wait 2000000000, .turn (.resume 1)]
    ∃ e₀ e, start config directory reactions = .ok e₀ ∧ e₀.replay deeds = some e ∧
      (e₀.times bringsBack deeds.reverse = 1 ∧ e₀.times dismisses deeds.reverse = 1 ∧
        e.members.exclusionsHeard = 1 ∧ e.reports = 2 ∧ e.outages = 1) ∧
      e.members.tally.stats = ⟨2, 1, 4, 3, 1, 2⟩ ∧
      e.members.tally.stats.peersAdded - e.members.tally.stats.peersRemoved =
        .ofNat (e.members.snapshot.countP (!·.failed)) ∧
      ∀ c, e.members.tally.meters.value c = e.members.tally.stats.of c := by
  intro config directory reactions deeds
  obtain ⟨e₀, he₀, hp₀⟩ := (Option.any_eq_true _ _).1 (show
    (start config directory reactions).toOption.any (fun e₀ => (e₀.replay deeds).any fun e =>
      e.running && decide (e₀.times bringsBack deeds.reverse = 1 ∧
        e₀.times dismisses deeds.reverse = 1 ∧ e.members.exclusionsHeard = 1 ∧ e.reports = 2 ∧
        e.outages = 1 ∧ e.members.addedSoFar = 4 ∧ e.members.removedSoFar = 3)) = true by decide +kernel)
  obtain ⟨e, he, hp⟩ := (Option.any_eq_true _ _).1 hp₀
  obtain ⟨running, counts⟩ := Bool.and_eq_true_iff.1 hp
  obtain ⟨back, dismissed, heard, reports, outages, added, removed⟩ := of_decide_eq_true counts
  have started : start config directory reactions = .ok e₀ := by
    generalize start config directory reactions = begun at he₀
    cases begun with
    | ok e => exact congrArg Except.ok (Option.some.inj he₀)
    | error error => cases he₀
  obtain ⟨stats, healthy, meters⟩ := counters_tell_what_happened started (replay_leads he)
  refine ⟨e₀, e, started, he, ⟨back, dismissed, heard, reports, outages⟩, ?_,
    healthy (by simp [reactions, Reaction.OnlyReports]) running, meters⟩
  rw [stats, reports, outages, added, removed, back, dismissed, heard]
  rfl

end Engine

end Roster
