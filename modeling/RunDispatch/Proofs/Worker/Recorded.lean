/-
# What is recorded of runs

The registry is called when a run is submitted, when it has ended, and when old statuses are dropped. What
happens to a worker makes at most one such call (`Worker.call?`), and nothing else changes the registry
(`Worker.heed_registry`). So the registry of a worker is what the calls on it made of it
(`Worker.play_registry`), and what was said of runs is what these calls wrote (`Worker.noticesOf`).

Key definitions: `Registry.Call`, `Registry.Turn`, `Turn.effect`, `Turn.writes?`, `Turn.Leaves`,
`Task.endCall?`, `Worker.call?`, `Worker.callsOf`, `Worker.noticesOf`.
Key theorems: `Turn.effect_cases`, `Registry.find?_of_leaves`, `Worker.heed_registry`,
`Worker.play_registry`.
-/
import RunDispatch.Proofs.Worker.History

namespace RunDispatch

/-- A status, and the name under which the registry is told of it. -/
abbrev Notice := String × Status

namespace Registry

/-! ### Calls on the registry -/

/-- A call that changes the registry. -/
inductive Call where
  | started (name : String) (kind : Operation)
  | finished (name : String) (kind : Operation) (result : Except Run.Failure Run.Report)
  | panicked (name : String) (kind : Operation)
  | evict (retention : Nat)

/-- A call that is made at a time. -/
structure Turn where
  time : Nat
  call : Call

namespace Turn

/-- The registry after a call. -/
def effect (g : Registry) (x : Turn) : Registry :=
  match x.call with
  | .started name kind => g.started x.time name kind
  | .finished name kind result => g.finished x.time name kind result
  | .panicked name kind => g.panicked x.time name kind
  | .evict retention => (g.evict x.time retention).2

/-- The status that a call writes, and the name it writes it under. -/
def writes? (x : Turn) : Option Notice :=
  match x.call with
  | .started name kind => some (name, .running kind)
  | .finished name kind result => some (name, .ofResult kind result)
  | .panicked name kind => some (name, .panicked kind)
  | .evict _ => none

/-- Whether a call leaves what was written under a name at `t`: it writes nothing there, and takes nothing of
that age away. -/
def Leaves (x : Turn) (n : String) (t : Nat) : Prop :=
  (∀ s, x.writes? ≠ some (n, s)) ∧ ∀ retention, x.call = .evict retention → x.time - t < retention

/-- **What a call does**: it writes one status, or evicts. -/
theorem effect_cases (x : Turn) :
    (∃ n s, x.writes? = some (n, s) ∧ ∀ g, x.effect g = g.record x.time n s) ∨
      ∃ retention, x.call = .evict retention ∧ x.writes? = none ∧
        ∀ g, x.effect g = (g.evict x.time retention).2 := by
  obtain ⟨now, call⟩ := x
  cases call with
  | started | finished | panicked => exact .inl ⟨_, _, rfl, fun _ => rfl⟩
  | evict retention => exact .inr ⟨retention, rfl, rfl, fun _ => rfl⟩

theorem not_evict_of_writes? {x : Turn} {e : Notice} (h : x.writes? = some e) (retention : Nat) :
    x.call ≠ .evict retention := by
  intro hc
  simp [writes?, hc] at h

end Turn

/-- What was written under a name is found as long as the calls leave it. -/
theorem find?_of_leaves (turns : List Turn) {g : Registry} {n : String} {s : Status} {t : Nat}
    (hg : g.entries.find? n = some (s, t)) (h : ∀ x ∈ turns, x.Leaves n t) :
    (turns.foldl Turn.effect g).entries.find? n = some (s, t) := by
  induction turns generalizing g with
  | nil => exact hg
  | cons x rest ih =>
    obtain ⟨hwrites, hage⟩ := h x List.mem_cons_self
    refine ih ?_ fun y hy => h y (List.mem_cons_of_mem x hy)
    rcases x.effect_cases with ⟨m, u, hx, heff⟩ | ⟨retention, hc, -, heff⟩ <;> rw [heff]
    · have hne : n ≠ m := by
        rintro rfl
        exact hwrites u hx
      rw [record, Table.find?_put, if_neg hne, hg]
    · refine Table.find?_keep_of_find? hg ?_
      simp [stays, hage retention hc]

end Registry

/-! ### The calls of a worker -/

/-- The call that records the end of a watched run. -/
def Task.endCall? (t : Task) : Option Registry.Call :=
  if t.watched then
    match t.run.phase with
    | .ended result => some (.finished t.run.name t.run.request.kind result)
    | .broken => some (.panicked t.run.name t.run.request.kind)
    | _ => none
  else none

theorem Task.isOver_of_endCall? {t : Task} {c : Registry.Call} (h : t.endCall? = some c) :
    t.run.isOver = true := by
  unfold endCall? at h
  unfold Run.isOver
  split at h
  · split at h <;> simp_all
  · cases h

namespace Worker

/-- The call on the registry when something happens to a worker. -/
def call? (w : Worker) (now : Nat) : Event → Option Registry.Call
  | .recordStart q => some (.started q.containerName q.kind)
  | .evict => some (.evict w.shared.markers.ttl)
  | .run number e =>
    match w.tasks[number]? with
    | none => none
    | some t =>
      if t.run.isOver then none
      else ({ t with run := (t.run.step w.setup now w.shared e).1.2 } : Task).endCall?
  | _ => none

def calls (w : Worker) (now : Nat) (e : Event) : List Registry.Turn :=
  ((w.call? now e).map (.mk now)).toList

/-- The calls on the registry while events happen. -/
def callsOf (w : Worker) : List (Nat × Event) → List Registry.Turn
  | [] => []
  | (now, e) :: rest => w.calls now e ++ (w.heed now e).callsOf rest

/-- What the registry is told of when something happens. -/
def notices (w : Worker) (now : Nat) (e : Event) : List Notice :=
  (w.calls now e).filterMap Registry.Turn.writes?

def noticesOf (w : Worker) (events : List (Nat × Event)) : List Notice :=
  (w.callsOf events).filterMap Registry.Turn.writes?

variable {w : Worker} {now : Nat}

theorem noticesOf_cons (e : Event) (rest : List (Nat × Event)) :
    w.noticesOf ((now, e) :: rest) = w.notices now e ++ (w.heed now e).noticesOf rest :=
  List.filterMap_append

theorem mem_calls {e : Event} {x : Registry.Turn} :
    x ∈ w.calls now e ↔ ∃ c, w.call? now e = some c ∧ ⟨now, c⟩ = x := by
  rw [calls, Option.mem_toList, Option.map_eq_some_iff]

theorem call?_of_isQuiet {e : Event} (he : e.isQuiet = true) : w.call? now e = none := by
  cases e with
  | tellToStop | forget | cleanup => rfl
  | recordStart | spawn | run | beginShutdown | evict => cases he

theorem run_of_call? {number : Nat} {e : Run.Event} {c : Registry.Call}
    (h : w.call? now (.run number e) = some c) :
    ∃ t : Task, w.tasks[number]? = some t ∧ t.run.isOver = false ∧
      ({ t with run := (t.run.step w.setup now w.shared e).1.2 } : Task).endCall? = some c := by
  simp only [call?] at h
  split at h
  · cases h
  · rename_i t ht
    split at h
    · cases h
    · rename_i ho
      exact ⟨t, ht, Bool.of_not_eq_true ho, h⟩

theorem recordEnd_eq_effect (g : Registry) (now : Nat) (t : Task) :
    (if t.run.isOver then recordEnd g now t else g) =
      t.endCall?.elim g fun call => Registry.Turn.effect g ⟨now, call⟩ := by
  unfold recordEnd Task.endCall? Run.isOver
  cases t.watched <;> cases t.run.phase <;> rfl

theorem foldl_calls (g : Registry) (e : Event) :
    (w.calls now e).foldl Registry.Turn.effect g =
      (w.call? now e).elim g fun call => Registry.Turn.effect g ⟨now, call⟩ := by
  rw [calls]
  cases w.call? now e <;> rfl

/-- **What becomes of the registry** when something happens: what the call on it makes of it, if there is
one. -/
theorem heed_registry (w : Worker) (now : Nat) (e : Event) :
    (w.heed now e).registry = (w.calls now e).foldl Registry.Turn.effect w.registry := by
  rw [foldl_calls]
  cases hq : e.isQuiet with
  | true =>
    obtain ⟨_, _, hw⟩ := heed_of_isQuiet w now hq
    rw [hw, call?_of_isQuiet hq]
    rfl
  | false =>
    cases e with
    | run number e =>
      simp only [heed, deliver, call?]
      cases w.tasks[number]? with
      | none => rfl
      | some t =>
        dsimp only
        split
        · rfl
        · exact recordEnd_eq_effect w.registry now
            { t with run := (t.run.step w.setup now w.shared e).1.2 }
    | recordStart | spawn | beginShutdown | evict => rfl
    | tellToStop | forget | cleanup => cases hq

/-- The registry of a worker that is played is what the calls on it make of it. -/
theorem play_registry (events : List (Nat × Event)) (log : List Entry) (w : Worker) :
    (play (log, w) events).2.registry =
      (w.callsOf events).foldl Registry.Turn.effect w.registry := by
  induction events generalizing log w with
  | nil => rfl
  | cons event rest ih =>
    obtain ⟨now, e⟩ := event
    have hplay : play (log, w) ((now, e) :: rest) = play (log ++ w.deeds now e, w.heed now e) rest := rfl
    rw [hplay, ih, heed_registry, callsOf, List.foldl_append]

end Worker
end RunDispatch
