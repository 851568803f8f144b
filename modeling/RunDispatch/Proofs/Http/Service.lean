/-
# What a request does to the worker

A trigger that is answered with another status than 202 leaves the worker as it was: its registry, its
runs, its markers, its disk and its slots. One that is answered with 202 adds one run, which is recorded as
running under the name in the answer, and changes nothing else. The store and the runtime are called by runs
alone, so a rehearsal in which a trigger was refused goes on as if it had not come. All this is so whatever a
body that is no text is taken for.

Key definitions: `acceptance`, `Taken`.
Key theorems: `takeTrigger_cases`, `serve_runs_cases`, `serve_cleanup_unread`, `serve_atomic`.
-/
import RunDispatch.Simulation.Rehearsal

namespace RunDispatch.Http

/-- What the answer to a trigger that is taken tells: the name and the operation of its run. -/
def acceptance (q : RunDispatch.Request) : Content :=
  dataContent (.object
    [("container_name", .string q.containerName), ("operation", .string q.kind.name)])

/-- A request is taken: its run is added to the worker `w`, which is otherwise as it was. -/
structure Taken (w : Worker) (q : RunDispatch.Request) (s : Served) : Prop where
  status_eq : s.answer.status = 202
  /-- The answer tells its name and its operation. -/
  body : s.answer.body = acceptance q
  /-- One run is spawned, and the others are where they were. -/
  spawned : s.spawned = some w.tasks.length
  tasks : s.worker.tasks = w.tasks ++ [⟨Run.start w.tasks.length q, true, true⟩]
  inFlight : s.worker.inFlight = w.inFlight + 1
  /-- It is recorded as running under its name, and the other entries are as they were. -/
  status : s.worker.status q.containerName = some (.running q.kind)
  others : ∀ n, n ≠ q.containerName →
    s.worker.registry.entries.find? n = w.registry.entries.find? n
  shared : s.worker.shared = w.shared
  setup : s.worker.setup = w.setup
  closing : s.worker.closing = w.closing

theorem Problem.status_ne (p : Problem) : p.status ≠ 202 := by
  unfold Problem.status
  split <;> decide

variable {w : Worker} {now : Nat} {undecoded : Undecoded}

/-- A request that the worker takes. -/
theorem taken_of_submit {q : RunDispatch.Request} {w' : Worker} {number : Nat}
    (h : w.submit now q = .ok (w', number)) :
    Taken w q ⟨w', some number, .of 202 (acceptance q)⟩ := by
  unfold Worker.submit at h
  split at h
  · cases h
  · rename_i hc
    cases h
    have hrun : { Run.start w.tasks.length q with cancelled := true && w.closing } =
        Run.start w.tasks.length q := by
      rw [Bool.true_and, Bool.eq_false_iff.mpr hc]
      rfl
    refine ⟨rfl, rfl, rfl, congrArg (fun r => w.tasks ++ [⟨r, true, true⟩]) hrun, ?_, ?_, fun n hn => ?_,
      rfl, rfl, rfl⟩
    · exact List.countP_append
    · exact (Registry.get_record _ _ _ _ _).trans (if_pos rfl)
    · exact (Table.find?_put _ _ _ _).trans (if_neg hn)

theorem takeTrigger_cases (w : Worker) (now : Nat) (t : Trigger) :
    (∃ p : Problem, takeTrigger w now t = unchanged w p.answer) ∨
      ∃ q, t.toRequest = .ok q ∧ Taken w q (takeTrigger w now t) := by
  unfold takeTrigger
  cases hq : t.toRequest with
  | error v => exact .inl ⟨_, rfl⟩
  | ok q =>
    simp only
    cases hs : w.submit now q with
    | error p => exact .inl ⟨p, rfl⟩
    | ok s => exact .inr ⟨q, rfl, taken_of_submit hs⟩

theorem unreadable_status_ne (f : Json.Failure) : (unreadable f).status ≠ 202 := by
  unfold unreadable
  split
  · show (400 : Nat) ≠ 202
    decide
  · show (422 : Nat) ≠ 202
    decide

theorem readBody_status_ne {r : Request} {a : Answer} (h : readBody r undecoded = .error a) :
    a.status ≠ 202 := by
  unfold readBody at h
  split at h
  · cases h
    decide
  · split at h
    · cases h
      decide
    · dsimp only at h
      generalize (if Text.isUtf8 r.body then Trigger.parse (Text.readUtf8 r.body)
        else undecoded r.body) = trigger at h
      cases trigger with
      | error f =>
        cases h
        exact unreadable_status_ne f
      | ok t => cases h

theorem handle_of_allowed {r : Request} {target : Target} {methods : List Method}
    (ht : Target.ofUri r.uri = target) (ha : target.allowed = some methods)
    (hm : methods.contains r.method = true) :
    handle w now r undecoded = handleTarget w now r target undecoded := by
  rw [handle]
  simp only [ht, ha, hm, if_true]

theorem content_of_body {a : Answer} {v : Json.Value} (h : a.body = .json v) : a.content = .json v := by
  unfold Answer.body at h
  split at h
  · cases h
  · exact h

/-- **What serving a trigger comes to**: it is refused, and the worker is as it was; or it could be read, makes
a request and is taken. -/
theorem serve_runs_cases (timeout : Nat) (w : Worker) (now : Nat) {r : Request} (undecoded : Undecoded)
    (hm : r.method = .post) (hu : Target.ofUri r.uri = .runs) :
    ((serve timeout w now r undecoded).answer.status ≠ 202 ∧ (serve timeout w now r undecoded).worker = w ∧
        (serve timeout w now r undecoded).spawned = none) ∨
      ∃ t q, readBody r undecoded = .ok t ∧ t.toRequest = .ok q ∧ Taken w q (serve timeout w now r undecoded) := by
  have hhead : decide (r.method = .head) = false := by rw [hm]; rfl
  by_cases htime : timeout = 0
  · rw [serve, if_pos htime]
    refine .inl ⟨?_, rfl, rfl⟩
    show (408 : Nat) ≠ 202
    decide
  · have hserved : handle w now r undecoded = handleTarget w now r .runs undecoded :=
      handle_of_allowed hu rfl (by rw [hm]; decide)
    simp only [serve, if_neg htime, hserved, handleTarget, hhead]
    cases hb : readBody r undecoded with
    | error a => exact .inl ⟨readBody_status_ne hb, rfl, rfl⟩
    | ok t =>
      simp only
      rcases takeTrigger_cases w now t with ⟨p, hp⟩ | ⟨q, hq, htaken⟩
      · rw [hp]
        exact .inl ⟨p.status_ne, rfl, rfl⟩
      · refine .inr ⟨t, q, rfl, hq, htaken.status_eq, ?_, htaken.spawned, htaken.tasks,
          htaken.inFlight, htaken.status, htaken.others, htaken.shared, htaken.setup, htaken.closing⟩
        show (takeTrigger w now t).answer.content = acceptance q
        exact content_of_body htaken.body

/-- A request for a cleanup whose identifier cannot be read leaves the worker as it was. -/
theorem serve_cleanup_unread (timeout : Nat) (w : Worker) (now : Nat) {r : Request} {segment : String}
    (undecoded : Undecoded) (hm : r.method = .post) (hu : Target.ofUri r.uri = .cleanup segment)
    (hid : ∀ raw id, readSegment segment = .ok raw → Connector.Id.parse raw ≠ .ok id) :
    (serve timeout w now r undecoded).worker = w ∧ (serve timeout w now r undecoded).spawned = none := by
  by_cases htime : timeout = 0
  · rw [serve, if_pos htime]
    exact ⟨rfl, rfl⟩
  · have hserved : handle w now r undecoded = handleTarget w now r (.cleanup segment) undecoded :=
      handle_of_allowed hu rfl (by rw [hm]; decide)
    simp only [serve, if_neg htime, hserved, handleTarget]
    cases hs : readSegment segment with
    | error a => exact ⟨rfl, rfl⟩
    | ok raw =>
      simp only [cleanUp, parseId]
      cases hp : Connector.Id.parse raw with
      | error f => exact ⟨rfl, rfl⟩
      | ok id => exact absurd hp (hid raw id hs)

open Simulation (Rehearsal)

/-- **A trigger that is refused changes nothing, and one that is taken starts one run.** A rehearsal has a
worker, a store and a runtime, in any state. If the answer to a trigger is not 202, the worker is the same, and
the rehearsal goes on as it would without the trigger. If it is 202, the request of the trigger is taken, and
the rehearsal goes on with its run. A request for a cleanup with an identifier that cannot be read leaves the
worker as it was, so it removes no file. -/
theorem serve_atomic (timeout : Nat) (h : Rehearsal) {r : Request} (undecoded : Undecoded)
    (hm : r.method = .post) :
    (Target.ofUri r.uri = .runs →
      ((serve timeout h.worker h.now r undecoded).answer.status ≠ 202 →
        (serve timeout h.worker h.now r undecoded).worker = h.worker ∧
          (serve timeout h.worker h.now r undecoded).spawned = none ∧ (h.http timeout r undecoded).1 = h.settle) ∧
      ((serve timeout h.worker h.now r undecoded).answer.status = 202 →
        ∃ t q, readBody r undecoded = .ok t ∧ t.toRequest = .ok q ∧
          Taken h.worker q (serve timeout h.worker h.now r undecoded) ∧
          (h.http timeout r undecoded).1 =
            (h.started (serve timeout h.worker h.now r undecoded).worker h.worker.tasks.length).settle)) ∧
    ∀ segment, Target.ofUri r.uri = .cleanup segment →
      (∀ raw id, readSegment segment = .ok raw → Connector.Id.parse raw ≠ .ok id) →
      (serve timeout h.worker h.now r undecoded).worker = h.worker ∧
        (serve timeout h.worker h.now r undecoded).spawned = none ∧ (h.http timeout r undecoded).1 = h.settle := by
  have hsame : ∀ {s : Served}, serve timeout h.worker h.now r undecoded = s → s.worker = h.worker →
      s.spawned = none → (h.http timeout r undecoded).1 = h.settle := by
    intro s hs hw hn
    rw [Rehearsal.http]
    simp only [hs, hn, hw]
  refine ⟨fun hu => ?_, fun segment hu hid => ?_⟩
  · rcases serve_runs_cases timeout h.worker h.now undecoded hm hu with ⟨hne, hw, hn⟩ | ⟨t, q, ht, hq, htaken⟩
    · exact ⟨fun _ => ⟨hw, hn, hsame rfl hw hn⟩, fun heq => absurd heq hne⟩
    · refine ⟨fun hne => absurd htaken.status_eq hne, fun _ => ⟨t, q, ht, hq, htaken, ?_⟩⟩
      rw [Rehearsal.http]
      simp only [htaken.spawned]
  · obtain ⟨hw, hn⟩ := serve_cleanup_unread timeout h.worker h.now undecoded hm hu hid
    exact ⟨hw, hn, hsame rfl hw hn⟩

def sampleRehearsal : Rehearsal :=
  .start ⟨⟨"r", .bind "r", 1000, 10⟩, ⟨.empty 2000, .sound .empty, ⟨2, [], []⟩⟩, .empty, [], false⟩
    ⟨{}, []⟩ ⟨[], 0, 0, none, none⟩

def samplePost : Request :=
  ⟨.post, "/api/v1/runs", [("Content-Type", "application/json")],
    "[\"o\", \"6f1c2a8e-3b4d-4e5f-9a0b-1c2d3e4f5a6b\", \"i\", \"check\", \"c\"]"⟩

def sampleRefused : Request :=
  { samplePost with body := "[\"o\", \"6f1c2a8e-3b4d-4e5f-9a0b-1c2d3e4f5a6b\", \"i\", \"write\"]" }

def sampleCleanup : Request := ⟨.post, "/api/v1/runs/c%2E/cleanup", [], ""⟩

theorem sample_serve_atomic :
    (Target.ofUri samplePost.uri = .runs ∧ Target.ofUri sampleCleanup.uri = .cleanup "c%2E" ∧
      (serve 30 sampleRehearsal.worker 0 samplePost).answer.status = 202 ∧
      (serve 30 sampleRehearsal.worker 0 sampleRefused).answer.status = 400) ∧
    (∃ t q, readBody samplePost = .ok t ∧ t.toRequest = .ok q ∧
      Taken sampleRehearsal.worker q (serve 30 sampleRehearsal.worker 0 samplePost)) ∧
    (sampleRehearsal.http 30 sampleRefused).1 = sampleRehearsal.settle ∧
    (sampleRehearsal.http 30 sampleCleanup).1 = sampleRehearsal.settle := by
  have hpost : Target.ofUri samplePost.uri = .runs := by decide +kernel
  have hcleanup : Target.ofUri sampleCleanup.uri = .cleanup "c%2E" := by decide +kernel
  have htaken : (serve 30 sampleRehearsal.worker 0 samplePost).answer.status = 202 := by
    decide +kernel
  have hrefused : (serve 30 sampleRehearsal.worker 0 sampleRefused).answer.status = 400 := by
    decide +kernel
  refine ⟨⟨hpost, hcleanup, htaken, hrefused⟩, ?_, ?_, ?_⟩
  · obtain ⟨t, q, ht, hq, h, -⟩ := ((serve_atomic 30 sampleRehearsal .lossy rfl).1 hpost).2 htaken
    exact ⟨t, q, ht, hq, h⟩
  · refine (((serve_atomic 30 sampleRehearsal (r := sampleRefused) .lossy rfl).1 hpost).1 ?_).2.2
    exact fun h => absurd (h.symm.trans hrefused) (by decide)
  · refine ((serve_atomic 30 sampleRehearsal (r := sampleCleanup) .lossy rfl).2 _ hcleanup ?_).2.2
    intro raw id hraw hid
    have hread : (readSegment "c%2E").toOption = some "c." := by decide +kernel
    rw [hraw] at hread
    cases hread
    have hbad : (Connector.Id.parse "c.").toOption.isSome = false := by decide +kernel
    rw [hid] at hbad
    cases hbad

end RunDispatch.Http
