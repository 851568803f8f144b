/-
# Runs side by side

All runs of a worker are spawned, and then things happen to them in any order and at any times: what
happens to a run is an event, with the faults that its file operations meet then. That others run too is
seen by a run in what it finds on the disk, among the markers and in the store, and in that it may have to
wait for a slot. What happens to it, told as if it never had to wait, is its script.

A run asks the runtime only about its own container, and writes the connectivity of its own connector. So
when no two runs share a name or a connector, what the runtime is asked about one container and what is
stored of one connector are told by what one run did.

Key definitions: `Matter`, `Run.passed`, `Turn`, `spawned`, `undergo`, `together`, `script`, `askedOf`,
`Database.after`.
Key theorems: `together_own`, `askedOf_eq`, `sameFor_after`.
-/
import RunDispatch.Proofs.Worker.LastWrite
import RunDispatch.Proofs.Worker.Shutdown

namespace RunDispatch

/-- What happens to a run at once: an event, and the faults that its file operations meet. -/
structure Matter where
  event : Run.Event
  faults : List (Option Staging.Fault)

/-- What happened to a run, as if it did not have to wait for a slot: the configuration comes with the slot,
or when the run is told to stop. -/
def Run.passed (r : Run) (x : Matter) (r' : Run) : List Matter :=
  match r.phase, r'.phase with
  | .queued _, .queued _ => []
  | .queued b, .ended _ => [⟨.cancel, []⟩, ⟨.configuration (.ok b), []⟩]
  | .queued b, _ => [⟨.configuration (.ok b), []⟩]
  | _, .queued _ => []
  | _, _ => [x]

theorem Run.passed_of_not_queued {r r' : Run} (h : ∀ b, r.phase ≠ .queued b)
    (h' : ∀ b, r'.phase ≠ .queued b) (x : Matter) : r.passed x r' = [x] := by
  unfold passed
  split <;> simp_all

namespace Worker

/-- Something happens to a run of a worker: when, to which run, and what. -/
structure Turn where
  now : Nat
  run : Nat
  matter : Matter

/-- A worker with a run for each request, of which none has done anything. -/
def spawned (setup : Run.Setup) (shared : Run.Shared) (requests : List Request) : Worker where
  setup := setup
  shared := shared
  registry := .empty
  tasks := requests.mapIdx fun i q => ⟨.start i q, true, true⟩
  closing := false

def facing (w : Worker) (faults : List (Option Staging.Fault)) : Worker :=
  { w with shared.disk.faults := faults }

/-- What a run that takes a turn comes to, with what it shares. -/
def stepIn (w : Worker) (setup : Run.Setup) (t : Turn) (r : Run) : Run.Shared × Run :=
  (r.step setup t.now (w.facing t.matter.faults).shared t.matter.event).1

/-- The worker after something happened to one of its runs. -/
def undergo (w : Worker) (t : Turn) : Worker :=
  (w.facing t.matter.faults).heed t.now (.run t.run t.matter.event)

def entries (w : Worker) (t : Turn) : List Entry :=
  (w.facing t.matter.faults).deeds t.now (.run t.run t.matter.event)

def together : List Entry × Worker → List Turn → List Entry × Worker :=
  List.foldl fun (log, w) t => (log ++ w.entries t, w.undergo t)

/-- What a turn is to a run, as if it did not have to wait for a slot. -/
def passed (i : Nat) (w : Worker) (t : Turn) : List Matter :=
  if t.run = i then
    match w.run? i, (w.undergo t).run? i with
    | some r, some r' => r.passed t.matter r'
    | _, _ => []
  else []

/-- What happens to a run in a sequence of turns, as if it did not have to wait for a slot. -/
def script (i : Nat) : Worker → List Turn → List Matter
  | _, [] => []
  | w, t :: rest => w.passed i t ++ script i (w.undergo t) rest

section Turns

variable {setup : Run.Setup} {shared : Run.Shared} {requests : List Request} {w : Worker}

theorem run?_spawned (i : Nat) :
    (spawned setup shared requests).run? i = requests[i]?.map (Run.start i) := by
  simp [spawned, run?, List.getElem?_mapIdx, Option.map_map, Function.comp_def]

theorem run?_facing (faults : List (Option Staging.Fault)) (i : Nat) :
    (w.facing faults).run? i = w.run? i := rfl

theorem setup_undergo (t : Turn) : (w.undergo t).setup = w.setup := heed_setup _ _ _

theorem undergo_none {t : Turn} (hr : w.run? t.run = none) :
    w.undergo t = w.facing t.matter.faults ∧ w.entries t = [] := by
  have ht : w.tasks[t.run]? = none := by simpa [run?] using hr
  constructor
  · simp [undergo, heed, deliver, facing, ht]
  · simp [entries, deeds, run?_facing, hr]

theorem undergo_over {t : Turn} {r : Run} (hr : w.run? t.run = some r) (ho : r.isOver = true) :
    w.undergo t = w.facing t.matter.faults ∧ w.entries t = [] :=
  heed_over (w := w.facing t.matter.faults) hr ho t.now t.matter.event

theorem undergo_run {t : Turn} {r : Run} (hr : w.run? t.run = some r) (ho : r.isOver = false) :
    (w.undergo t).shared =
      (w.stepIn w.setup t r).1 ∧
    (∀ i, (w.undergo t).run? i = if i = t.run then
      some (w.stepIn w.setup t r).2 else w.run? i) ∧
    w.entries t =
      (r.deeds w.setup (r.heeded t.matter.event)
        (w.stepIn w.setup t r).2).map
        fun d => ⟨t.run, r.name, d⟩ :=
  heed_run (w := w.facing t.matter.faults) hr ho t.now t.matter.event

theorem turn_move (w : Worker) (t : Turn) {r : Run} (hs : r.Sound setup) :
    Run.Move setup t.now (w.facing t.matter.faults).shared r (r.heeded t.matter.event)
      (w.stepIn setup t r).1
      (w.stepIn setup t r).2 :=
  Run.step_move hs t.matter.event

theorem undergo_own {t : Turn} {r : Run} {x : Run.Shared × Run} (hw : w.setup = setup)
    (hr : w.run? t.run = some r) (ho : r.isOver = false)
    (hx : w.stepIn setup t r = x) :
    (w.undergo t).shared = x.1 ∧ (w.undergo t).run? t.run = some x.2 ∧
      deedsOf t.run (w.entries t) = r.deeds setup (r.heeded t.matter.event) x.2 := by
  subst hw hx
  obtain ⟨hshared, hrun, hentries⟩ := undergo_run hr ho
  rw [hentries, deedsOf_map, if_pos rfl, hshared, hrun, if_pos rfl]
  exact ⟨rfl, rfl, rfl⟩

theorem passed_own {t : Turn} {r r' : Run} (hr : w.run? t.run = some r)
    (hr' : (w.undergo t).run? t.run = some r') : w.passed t.run t = r.passed t.matter r' := by
  simp only [passed, hr, hr', if_true]

/-- Whether every run of a worker is where its way can have led it, and works on the request of its
number. -/
def Manned (setup : Run.Setup) (requests : List Request) (w : Worker) : Prop :=
  w.setup = setup ∧ ∀ i r, w.run? i = some r → r.Sound setup ∧ requests[i]? = some r.request

theorem manned_spawned : Manned setup requests (spawned setup shared requests) := by
  refine ⟨rfl, fun i r hr => ?_⟩
  rw [run?_spawned] at hr
  obtain ⟨q, hq, rfl⟩ := Option.map_eq_some_iff.mp hr
  exact ⟨Run.start_sound setup i q, hq⟩

theorem Manned.undergo (h : Manned setup requests w) (t : Turn) : Manned setup requests (w.undergo t) := by
  obtain ⟨rfl, h⟩ := h
  refine ⟨setup_undergo t, ?_⟩
  cases hr : w.run? t.run with
  | none =>
    rw [(undergo_none hr).1]
    exact h
  | some r =>
    cases ho : r.isOver with
    | true =>
      rw [(undergo_over hr ho).1]
      exact h
    | false =>
      obtain ⟨-, hw, -⟩ := undergo_run hr ho
      obtain ⟨hs, hq⟩ := h _ r hr
      intro i q hi
      rw [hw] at hi
      split at hi
      · rename_i hit
        cases hi
        have hm := w.turn_move t hs
        rw [hm.same.2, hit]
        exact ⟨hm.sound hs, hq⟩
      · exact h i q hi

end Turns

/-! ### What is told by one run -/

/-- Whether an entry of the log tells of no other container and no other connector than those of its run. -/
structure Entry.Own (requests : List Request) (e : Entry) (q : Request) : Prop where
  request : requests[e.run]? = some q
  container : ∀ ask ending n, e.deed = .called (.container ask) ending → ask.subject? = some n →
    n = q.containerName
  connector : ∀ owner connector state ending,
    e.deed = .called (.writeState owner connector state) ending →
      owner = q.owner ∧ connector = q.connector

/-- **A run calls for its own**: it asks about its own container, and writes the connectivity of its own
connector. -/
theorem Manned.own {setup : Run.Setup} {requests : List Request} {w : Worker} (h : Manned setup requests w)
    (t : Turn) : ∀ e ∈ w.entries t, ∃ q, e.Own requests q := by
  intro e he
  cases hr : w.run? t.run with
  | none =>
    rw [(undergo_none hr).2] at he
    cases he
  | some r =>
    cases ho : r.isOver with
    | true =>
      rw [(undergo_over hr ho).2] at he
      cases he
    | false =>
      obtain ⟨rfl, hw⟩ := h
      obtain ⟨hs, hq⟩ := hw _ r hr
      rw [(undergo_run hr ho).2.2] at he
      obtain ⟨d, hd, rfl⟩ := List.mem_map.mp he
      refine ⟨r.request, hq, ?_, ?_⟩
      · rintro ask ending n rfl hn
        exact (asks_own hs (Run.called_of_mem_deeds hd).1).2 n hn
      · rintro owner connector state ending rfl
        obtain ⟨finding, -, ho, hc, -⟩ := Run.recording_of_call (Run.called_of_mem_deeds hd).1
        exact ⟨ho, hc⟩

theorem Manned.together {setup : Run.Setup} {requests : List Request} (turns : List Turn)
    {log : List Entry} {w : Worker} (h : Manned setup requests w) :
    Manned setup requests (Worker.together (log, w) turns).2 := by
  induction turns generalizing log w with
  | nil => exact h
  | cons t rest ih => exact ih (h.undergo t)

theorem together_own {setup : Run.Setup} {requests : List Request} (turns : List Turn) {log : List Entry}
    {w : Worker} (h : Manned setup requests w) (hl : ∀ e ∈ log, ∃ q, e.Own requests q) :
    ∀ e ∈ (together (log, w) turns).1, ∃ q, e.Own requests q := by
  induction turns generalizing log w with
  | nil => exact hl
  | cons t rest ih =>
    refine ih (h.undergo t) fun e he => ?_
    rcases List.mem_append.mp he with he | he
    · exact hl e he
    · exact h.own t e he

theorem ne_of_apart {requests : List Request} {α : Type} {f : Request → α} (hn : (requests.map f).Nodup)
    {i j : Nat} {p q : Request} (hp : requests[j]? = some p) (hq : requests[i]? = some q) (hi : j ≠ i) :
    f p ≠ f q := by
  intro he
  refine hi ((List.getElem?_inj (i := j) (j := i) ?_ hn).mp ?_)
  · rw [List.length_map]
    exact (List.getElem?_eq_some_iff.mp hp).1
  · rw [List.getElem?_map, List.getElem?_map, hp, hq, Option.map_some, Option.map_some, he]

end Worker

/-- What the runtime was asked about a container, and what ended the waiting for the answer. -/
def Run.Deed.askedOf? (name : String) : Run.Deed → Option (Container.Ask × Run.Event)
  | .called (.container ask) ending => if ask.subject? = some name then some (ask, ending) else none
  | _ => none

namespace Store

/-- The store after a write that a run waited for: it was taken if the answer says so. -/
def Database.settle (d : Database) : String × Connector.Id × Connector.State × Run.Event → Database
  | (owner, connector, state, .stored (.ok ())) => (d.writeState owner connector state).1
  | _ => d

/-- The store after the writes of runs. -/
def Database.after (d : Database) (log : List Run.Deed) : Database := (Run.writes log).foldl settle d

end Store

namespace Worker

/-- What the runtime was asked about a container by any run. -/
def askedOf (name : String) (log : List Run.Deed) : List (Container.Ask × Run.Event) :=
  log.filterMap (Run.Deed.askedOf? name)

def allDeeds (log : List Entry) : List Run.Deed := log.map (·.deed)

section Logs

variable {requests : List Request} {log : List Entry} {i : Nat} {q : Request}

theorem deedsOf_cons (i : Nat) (e : Entry) (log : List Entry) :
    deedsOf i (e :: log) = if e.run = i then e.deed :: deedsOf i log else deedsOf i log := by
  unfold deedsOf
  rw [List.filter_cons]
  split <;> simp_all

/-- **What the runtime was asked about a run's container** was asked by that run. -/
theorem askedOf_eq (hl : ∀ e ∈ log, ∃ p, e.Own requests p)
    (hn : (requests.map (·.containerName)).Nodup) (hq : requests[i]? = some q) :
    askedOf q.containerName (allDeeds log) = askedOf q.containerName (deedsOf i log) := by
  induction log with
  | nil => rfl
  | cons e rest ih =>
    have ih := ih fun e he => hl e (List.mem_cons_of_mem _ he)
    obtain ⟨p, hp⟩ := hl e List.mem_cons_self
    rw [deedsOf_cons]
    split
    · simp only [allDeeds, askedOf, List.map_cons, List.filterMap_cons] at ih ⊢
      rw [ih]
    · rename_i hi
      have hnone : e.deed.askedOf? q.containerName = none := by
        unfold Run.Deed.askedOf?
        split
        · rename_i ask ending hd
          rw [if_neg]
          exact fun hs => ne_of_apart hn hp.request hq hi (hp.container ask ending _ hd hs).symm
        · rfl
      simp only [allDeeds, askedOf, List.map_cons, List.filterMap_cons, hnone] at ih ⊢
      exact ih

end Logs

end Worker

namespace Store

variable {owner : String} {id : Connector.Id} {d d' : Database}

/-- Whether two stores know the same of an owner's connector, and fail or not in the same way. -/
structure Database.SameFor (owner : String) (id : Connector.Id) (d d' : Database) : Prop where
  row : d'.rows.find? (·.isSeen owner id) = d.rows.find? (·.isSeen owner id)
  fault : d'.writeFault = d.writeFault

theorem Database.SameFor.connectivity? (h : SameFor owner id d d') :
    d'.connectivity? owner id = d.connectivity? owner id := by
  rw [Database.connectivity?, Database.connectivity?, h.row]

/-- A write to another connector changes nothing of this one. -/
theorem Database.SameFor.writeState_other (h : SameFor owner id d d') {o : String} {i : Connector.Id}
    (hi : (o, i) ≠ (owner, id)) (state : Connector.State) :
    SameFor owner id d (d'.writeState o i state).1 := by
  unfold Database.writeState
  split
  · exact h
  · split
    · refine ⟨?_, h.fault⟩
      rw [find?_setState, ← h.row]
      cases hr : d'.rows.find? (·.isSeen owner id) with
      | none => rfl
      | some r =>
        have hseen : (r.id = id ∧ r.owner = owner) ∧ r.deletedAt = none := by
          simpa [Row.isSeen] using List.find?_some hr
        obtain ⟨⟨rfl, rfl⟩, -⟩ := hseen
        rw [Option.map_some, Database.setState, if_neg]
        intro hs
        have hs : (r.id = i ∧ r.owner = o) ∧ r.deletedAt = none := by simpa [Row.isSeen] using hs
        exact hi (by rw [hs.1.1, hs.1.2])
    · exact h

/-- A write to this connector does the same in both stores. -/
theorem Database.SameFor.writeState (h : SameFor owner id d d') (state : Connector.State) :
    SameFor owner id (d.writeState owner id state).1 (d'.writeState owner id state).1 := by
  have hany : d'.rows.any (·.isSeen owner id) = d.rows.any (·.isSeen owner id) := by
    rw [← List.isSome_find?, ← List.isSome_find?, h.row]
  unfold Database.writeState
  rw [h.fault, hany]
  split
  · exact h
  · split
    · refine ⟨?_, rfl⟩
      dsimp only
      rw [find?_setState, find?_setState, h.row]
    · exact h

theorem Database.after_cons (d : Database) (x : Run.Deed) (log : List Run.Deed) :
    d.after (x :: log) = (x.write?.elim d d.settle).after log := by
  unfold Database.after Run.writes
  rw [List.filterMap_cons]
  cases x.write? <;> rfl

theorem Database.SameFor.settle_other (h : SameFor owner id d d')
    {x : String × Connector.Id × Connector.State × Run.Event} (hx : (x.1, x.2.1) ≠ (owner, id)) :
    SameFor owner id d (d'.settle x) := by
  unfold Database.settle
  split
  · exact h.writeState_other hx _
  · exact h

theorem Database.SameFor.settle (h : SameFor owner id d d')
    {x : String × Connector.Id × Connector.State × Run.Event} (ho : x.1 = owner) (hx : x.2.1 = id) :
    SameFor owner id (d.settle x) (d'.settle x) := by
  unfold Database.settle
  split
  · subst ho hx
    exact h.writeState _
  · exact h

end Store

namespace Worker

/-- **What is stored of a run's connector** was written by that run. -/
theorem sameFor_after {requests : List Request} {log : List Entry} {i : Nat} {q : Request}
    (hl : ∀ e ∈ log, ∃ p, e.Own requests p)
    (hn : (requests.map fun q => (q.owner, q.connector)).Nodup)
    (hq : requests[i]? = some q) {d d' : Store.Database} (h : d.SameFor q.owner q.connector d') :
    (d.after (deedsOf i log)).SameFor q.owner q.connector (d'.after (allDeeds log)) := by
  induction log generalizing d d' with
  | nil => exact h
  | cons e rest ih =>
    have ih := @ih fun e he => hl e (List.mem_cons_of_mem _ he)
    obtain ⟨p, hp⟩ := hl e List.mem_cons_self
    have hwrite : ∀ x, e.deed.write? = some x → x.1 = p.owner ∧ x.2.1 = p.connector := by
      intro x hx
      unfold Run.Deed.write? at hx
      split at hx
      · rename_i owner connector state ending hd
        cases hx
        exact hp.connector _ _ _ _ hd
      · cases hx
    rw [allDeeds, List.map_cons, Store.Database.after_cons, deedsOf_cons]
    split
    · rename_i hi
      obtain rfl : p = q := by
        have := hp.request
        rw [hi, hq] at this
        exact (Option.some.inj this).symm
      rw [Store.Database.after_cons]
      refine ih ?_
      cases hx : e.deed.write? with
      | none => exact h
      | some x => exact h.settle (hwrite x hx).1 (hwrite x hx).2
    · rename_i hi
      refine ih ?_
      cases hx : e.deed.write? with
      | none => exact h
      | some x =>
        refine h.settle_other ?_
        rw [(hwrite x hx).1, (hwrite x hx).2]
        exact ne_of_apart hn hp.request hq hi

end Worker

end RunDispatch
