/-
# The order of a container's steps

Against any runtime, whatever it answers to each call, a container comes to exactly one end. It asks
for its image, is made, started, waited for, and its output is taken, up to the first step that
fails; it is removed exactly if its image was had, and the first failure is how it ends, whatever the
removal comes to.

Key definitions: `Runtime`, `Runtime.Lives`, `Runtime.steps`, `Runtime.Sequenced`.
Key theorems: `Lives.unique`, `lives_sequenced`, `Solo.live_lives`.
-/
import RunDispatch.Container.Lifecycle
import RunDispatch.Simulation.Solo

namespace RunDispatch.Container

/-- A runtime: what it answers to each call. -/
structure Runtime where
  pull : Image → Except Failure Unit
  create : Spec → Except Failure String
  /-- Whether the output of the started container is attached. -/
  start : String → String → Option Bytes → Except Failure Bool
  wait : String → String → Except Failure Int
  logs : String → String → Except Failure (List Chunk)
  remove : String → Except Failure Unit

def trouble {α : Type} : Except Failure α → Option Failure
  | .error f => some f
  | .ok _ => none

def Reply.of {α : Type} (form : α → Reply) : Except Failure α → Reply
  | .error f => .failed f
  | .ok a => form a

namespace Runtime

section

variable (rt : Runtime) (spec : Spec) (stdin : Option Bytes)

/-- The reply of a runtime to a question. Attached output ends, which is all that is awaited. -/
def reply : Ask → Reply
  | .pull image => .of (fun _ => .done) (rt.pull image)
  | .create spec => .of .created (rt.create spec)
  | .start id name input => .of .started (rt.start id name input)
  | .wait id name => .of .exited (rt.wait id name)
  | .drain _ => .done
  | .logs id name => .of .collected (rt.logs id name)
  | .remove name => .of (fun _ => .done) (rt.remove name)

/-- The rest of a container's life from a stage on: what is asked, and how it ends. -/
inductive Lives : Stage → List Ask → Except Failure Exit → Prop where
  | ended (result : Except Failure Exit) : Lives (.ended result) [] result
  | asked {stage : Stage} {ask : Ask} {asks : List Ask} {result : Except Failure Exit}
    (here : stage.ask? spec stdin = some ask)
    (rest : Lives (stage.next (rt.reply ask)).1 asks result) : Lives stage (ask :: asks) result

/-- The container that the runtime makes: no call is about it if there is none. -/
def made : String := (rt.create spec).toOption.getD ""

def started : Except Failure Bool :=
  rt.start (rt.made spec) spec.name (if spec.attachStdin then some (stdin.getD []) else none)

def attached : Bool := (rt.started spec stdin).toOption.getD false

def waited : Except Failure Int := rt.wait (rt.made spec) spec.name

/-- The last step before the removal: the end of the attached output is awaited, or the logs are
asked for. -/
def outputStep : Ask × Option Failure :=
  if rt.attached spec stdin then (.drain spec.name, none)
  else (.logs (rt.made spec) spec.name, trouble (rt.logs (rt.made spec) spec.name))

/-- The steps before the removal, each with the failure that it meets. -/
def steps : List (Ask × Option Failure) :=
  [(.pull spec.image, trouble (rt.pull spec.image)),
    (.create spec, trouble (rt.create spec)),
    (.start (rt.made spec) spec.name (if spec.attachStdin then some (stdin.getD []) else none),
      trouble (rt.started spec stdin)),
    (.wait (rt.made spec) spec.name, trouble (rt.waited spec)),
    rt.outputStep spec stdin]

end

/-- The steps that are taken: up to the first that fails, and that one. -/
def upToFailure : List (Ask × Option Failure) → List Ask
  | [] => []
  | (ask, some _) :: _ => [ask]
  | (ask, none) :: steps => ask :: upToFailure steps

def firstFailure (steps : List (Ask × Option Failure)) : Option Failure :=
  steps.findSome? Prod.snd

section

variable (rt : Runtime) (spec : Spec) (stdin : Option Bytes)

/-- What is asked of a runtime, and how the container ends, follow from the runtime's answers. -/
structure Sequenced (asks : List Ask) (result : Except Failure Exit) : Prop where
  /-- The steps are taken in order up to the first failure, and then the removal, once, exactly if
  the image was had. -/
  asks : asks = upToFailure (rt.steps spec stdin) ++
    if trouble (rt.pull spec.image) = none then [.remove spec.name] else []
  /-- The first failure is the end, whatever the removal is answered. -/
  failed : ∀ f, firstFailure (rt.steps spec stdin) = some f → result = .error f
  /-- Without one the container ends with the status that was waited for, and with the failure of
  its removal, if that failed. -/
  ended : firstFailure (rt.steps spec stdin) = none → ∃ status, rt.waited spec = .ok status ∧
    result = .ok ⟨rt.made spec, status, trouble (rt.remove spec.name)⟩

end

section Lives

variable {rt : Runtime} {spec : Spec} {stdin : Option Bytes} {stage : Stage}

/-- A container has one life with a runtime. -/
theorem Lives.unique {asks asks' : List Ask} {result result' : Except Failure Exit}
    (h : rt.Lives spec stdin stage asks result) (h' : rt.Lives spec stdin stage asks' result') :
    asks' = asks ∧ result' = result := by
  induction h generalizing asks' with
  | ended result =>
    cases h' with
    | ended => exact ⟨rfl, rfl⟩
    | asked here => cases here
  | asked here _ ih =>
    cases h' with
    | ended => cases here
    | asked here' rest' =>
      obtain rfl := Option.some.inj (here.symm.trans here')
      obtain ⟨rfl, rfl⟩ := ih rest'
      exact ⟨rfl, rfl⟩

/-- The removal is the last question; what it is answered is told beside the result. -/
theorem lives_removing (result : Except Failure (String × Int)) :
    rt.Lives spec stdin (.removing result) [.remove spec.name]
      (Stage.exit result (trouble (rt.remove spec.name))) := by
  refine .asked rfl ?_
  cases h : rt.remove spec.name <;>
    simpa only [reply, h, Reply.of, Stage.next, trouble] using .ended _

/-- How a container ends whose steps are these: with their first failure, or else with what was told
of it. -/
def outcome (steps : List (Ask × Option Failure)) (told : String × Int) :
    Except Failure (String × Int) :=
  match firstFailure steps with
  | some f => .error f
  | none => .ok told

variable (rt spec stdin) in
/-- Whether a container goes from a stage through the steps given, up to the first failure, and then
through its removal. -/
def Proceeds (stage : Stage) (steps : List (Ask × Option Failure)) (told : String × Int) : Prop :=
  rt.Lives spec stdin stage (upToFailure steps ++ [.remove spec.name])
    (Stage.exit (outcome steps told) (trouble (rt.remove spec.name)))

theorem proceeds_of_failed {ask : Ask} {f : Failure} (here : stage.ask? spec stdin = some ask)
    (hn : (stage.next (rt.reply ask)).1 = .removing (.error f)) (steps : List (Ask × Option Failure))
    (told : String × Int) : rt.Proceeds spec stdin stage ((ask, some f) :: steps) told := by
  refine .asked here ?_
  rw [hn]
  exact lives_removing (.error f)

theorem proceeds_of_done {ask : Ask} {next : Stage} {steps : List (Ask × Option Failure)}
    {told : String × Int} (here : stage.ask? spec stdin = some ask)
    (hn : (stage.next (rt.reply ask)).1 = next) (rest : rt.Proceeds spec stdin next steps told) :
    rt.Proceeds spec stdin stage ((ask, none) :: steps) told :=
  .asked here (hn ▸ rest)

theorem proceeds_removing (told : String × Int) :
    rt.Proceeds spec stdin (.removing (.ok told)) [] told :=
  lives_removing (.ok told)

def told (rt : Runtime) (spec : Spec) : String × Int :=
  (rt.made spec, (rt.waited spec).toOption.getD 0)

/-- The last step before the removal, from the stage that the attached output or the logs call
for. -/
theorem proceeds_output :
    rt.Proceeds spec stdin
      (if rt.attached spec stdin then .draining (rt.told spec).1 (rt.told spec).2
        else .collecting (rt.told spec).1 (rt.told spec).2)
      [rt.outputStep spec stdin] (rt.told spec) := by
  rw [outputStep]
  split
  · exact proceeds_of_done rfl rfl (proceeds_removing _)
  · cases hl : rt.logs (rt.made spec) spec.name with
    | error f => exact proceeds_of_failed rfl (by simp only [reply, hl, Reply.of, Stage.next]) _ _
    | ok chunks =>
      exact proceeds_of_done rfl
        (by simp only [told, reply, hl, Reply.of, Stage.next]) (proceeds_removing _)

theorem proceeds_waiting :
    rt.Proceeds spec stdin (.waiting (rt.made spec) (rt.attached spec stdin))
      [(.wait (rt.made spec) spec.name, trouble (rt.waited spec)), rt.outputStep spec stdin]
      (rt.told spec) := by
  cases hw : rt.waited spec with
  | error f =>
    rw [waited] at hw
    exact proceeds_of_failed rfl (by simp only [reply, hw, Reply.of, Stage.next]) _ _
  | ok status =>
    have hs : (rt.told spec).2 = status := by rw [told, hw]; rfl
    refine proceeds_of_done rfl ?_ proceeds_output
    rw [hs, told, reply, ← waited, hw]
    cases rt.attached spec stdin <;> rfl

theorem proceeds_starting :
    rt.Proceeds spec stdin (.starting (rt.made spec)) ((rt.steps spec stdin).drop 2)
      (rt.told spec) := by
  rw [steps, List.drop_succ_cons, List.drop_succ_cons, List.drop_zero]
  cases hs : rt.started spec stdin with
  | error f =>
    rw [started] at hs
    exact proceeds_of_failed rfl (by simp only [reply, hs, Reply.of, Stage.next]) _ _
  | ok attached =>
    refine proceeds_of_done rfl ?_ proceeds_waiting
    rw [reply, ← started, Runtime.attached, hs]
    rfl

variable (rt spec stdin) in
theorem proceeds_creating :
    rt.Proceeds spec stdin .creating ((rt.steps spec stdin).drop 1) (rt.told spec) := by
  rw [steps, List.drop_succ_cons, List.drop_zero]
  cases hc : rt.create spec with
  | error f => exact proceeds_of_failed rfl (by simp only [reply, hc, Reply.of, Stage.next]) _ _
  | ok id =>
    refine proceeds_of_done rfl ?_ proceeds_starting
    rw [reply, made, hc]
    rfl

variable (rt spec stdin) in
/-- A container's life with a runtime, from the question for its image on. -/
theorem lives_pulling :
    rt.Lives spec stdin .pulling
      (upToFailure (rt.steps spec stdin) ++
        if trouble (rt.pull spec.image) = none then [.remove spec.name] else [])
      (Stage.exit (outcome (rt.steps spec stdin) (rt.told spec))
        (trouble (rt.remove spec.name))) := by
  cases hp : rt.pull spec.image with
  | error f =>
    rw [steps, hp]
    refine .asked rfl ?_
    rw [reply, hp]
    exact .ended _
  | ok _ =>
    have hn : (Stage.pulling.next (rt.reply (.pull spec.image))).1 = .creating := by
      rw [reply, hp]
      rfl
    have life := proceeds_of_done rfl hn (proceeds_creating rt spec stdin)
    rw [Proceeds] at life
    rw [if_pos (show trouble (.ok _) = none from rfl), steps, hp]
    exact life

theorem waited_of_firstFailure (h : firstFailure (rt.steps spec stdin) = none) :
    ∃ status, rt.waited spec = .ok status := by
  have hw : trouble (rt.waited spec) = none :=
    List.findSome?_eq_none_iff.mp h (.wait (rt.made spec) spec.name, trouble (rt.waited spec))
      (by simp [steps])
  cases h' : rt.waited spec with
  | error f => rw [h'] at hw; cases hw
  | ok status => exact ⟨status, rfl⟩

/-- **The order of a container's steps.** Whatever a runtime answers to each call, a container has
exactly one life with it, and in that one the steps are taken in order up to the first that fails,
the container is removed exactly if its image was had, and the first failure, or else the exit status
with the failure of the removal, is how it ends. -/
theorem lives_sequenced (rt : Runtime) (spec : Spec) (stdin : Option Bytes) :
    ∃ asks result, rt.Sequenced spec stdin asks result ∧
      ∀ asks' result',
        rt.Lives spec stdin .pulling asks' result' ↔ asks' = asks ∧ result' = result := by
  have life := lives_pulling rt spec stdin
  refine ⟨_, _, ⟨rfl, fun f hf => ?_, fun hn => ?_⟩, fun asks' result' =>
    ⟨life.unique, fun ⟨ha, hr⟩ => ha ▸ hr ▸ life⟩⟩
  · rw [outcome, hf]
    rfl
  · obtain ⟨status, hs⟩ := waited_of_firstFailure hn
    refine ⟨status, hs, ?_⟩
    rw [outcome, hn, told, hs]
    rfl

end Lives

end Runtime

end RunDispatch.Container

namespace RunDispatch.Simulation

open Container

/-- What a scripted runtime answers to the next call of a step that does not break down: its failure,
or what is due. -/
def RuntimeScript.due (s : RuntimeScript) (c : Counts) (subject : String) (step : Step) {α : Type}
    (value : α) : Except Failure α :=
  match (s.answer subject step (c.of subject step + 1)).2 with
  | .reply (.failed f) => .error f
  | _ => .ok value

/-- A scripted runtime as it answers to the next call of each step. -/
def RuntimeScript.runtime (s : RuntimeScript) (c : Counts) : Runtime where
  pull image := s.due c image.display .pull ()
  create spec := s.due c spec.name .create ("id-" ++ spec.name)
  start _ name _ := s.due c name .start (s.scriptFor name).pump.isSome
  wait _ name := s.due c name .wait (exitStatus (s.scriptFor name).exits (c.of name .wait + 1))
  logs _ name := s.due c name .logs (s.scriptFor name).logs
  remove name := s.due c name .remove ()

theorem answer_reply {s : RuntimeScript} {subject : String} {step : Step} {call : Nat} {r : Reply}
    (h : (s.answer subject step call).2 = .reply r) :
    (∃ f, r = .failed f) ∨ r = RuntimeScript.success (s.scriptFor subject) subject call step := by
  unfold RuntimeScript.answer at h
  grind

/-- The reply of a scripted runtime is that of the runtime it is. -/
theorem reply_of_answer {s : RuntimeScript} {c : Counts} {a : Ask} {subject : String} {step : Step}
    (ha : subjectOf a = some (subject, step)) {r : Reply}
    (h : (s.answer subject step (c.of subject step + 1)).2 = .reply r) :
    (s.runtime c).reply a = r := by
  have hd : ∀ {α : Type} (form : α → Reply) (value : α),
      form value = RuntimeScript.success (s.scriptFor subject) subject (c.of subject step + 1) step →
      Reply.of form (s.due c subject step value) = r := by
    intro α form value hv
    rw [RuntimeScript.due, h]
    rcases answer_reply h with ⟨f, rfl⟩ | rfl
    · rfl
    · refine Eq.trans ?_ hv
      cases step <;> rfl
  cases a <;> cases ha <;> exact hd _ _ rfl

theorem of_more_of_ne (c : Counts) (subject subject' : String) {step step' : Step}
    (h : step' ≠ step) : (c.more subject step).of subject' step' = c.of subject' step' := by
  rw [Counts.of, Counts.more, lookup_cons_filter_ne, if_neg fun e => h (congrArg Prod.snd e)]
  rfl

namespace Solo

variable {w w' : Solo}

def asked (w : Solo) : List Ask :=
  w.trace.reverse.filterMap fun
    | (_, .asked a) => some a
    | (_, .printed ..) => none

/-- Whether no question was asked between two instants. -/
structure Idle (w w' : Solo) : Prop where
  asked : w'.asked = w.asked
  counts : w'.counts = w.counts
  runtime : w'.runtime = w.runtime

theorem Idle.refl (w : Solo) : w.Idle w := ⟨rfl, rfl, rfl⟩

theorem Idle.trans {w'' : Solo} (h : w.Idle w') (h' : w'.Idle w'') : w.Idle w'' :=
  ⟨h'.asked.trans h.asked, h'.counts.trans h.counts, h'.runtime.trans h.runtime⟩

theorem idle_note_printed (w : Solo) (name : String) (stream : Stream) (line : String) :
    w.Idle (w.note (.printed name stream line)) := by
  refine ⟨?_, rfl, rfl⟩
  simp [asked, note]

theorem idle_foldl {α : Type} {f : Solo → α → Solo} (hf : ∀ w a, Idle w (f w a)) (l : List α)
    (w : Solo) : w.Idle (l.foldl f w) := by
  induction l generalizing w with
  | nil => exact .refl w
  | cons a r ih => exact (hf w a).trans (ih (f w a))

theorem idle_printAll (w : Solo) (name : String) (cs : List Chunk) : w.Idle (w.printAll name cs) := by
  refine idle_foldl (fun w c => ?_) cs w
  exact idle_foldl (fun w l => idle_note_printed w name c.stream l) c.shownLines w

theorem idle_passUntil (limit fuel : Nat) (w : Solo) : w.Idle (passUntil limit fuel w) := by
  induction fuel generalizing w with
  | zero => exact .refl w
  | succ fuel ih =>
    rw [passUntil]
    split
    · exact .refl w
    · next item pumps _ =>
      have taken : w.Idle { w with pumps, now := max w.now item.time } := ⟨rfl, rfl, rfl⟩
      exact (taken.trans (idle_printAll _ _ _)).trans (ih _)

theorem idle_advance (w : Solo) (target : Nat) : w.Idle (w.advance target) :=
  (idle_passUntil target w.pumps.length w).trans ⟨rfl, rfl, rfl⟩

theorem idle_drain (w : Solo) (number : Nat) : w.Idle (w.drain number) := by
  rw [drain]
  split
  · exact .refl w
  · exact idle_passUntil _ _ w

theorem idle_startPump (w : Solo) (name : String) (r : Reply) : w.Idle (w.startPump name r) := by
  unfold startPump
  split
  · exact ⟨rfl, rfl, rfl⟩
  · exact .refl w

/-- The questions that call a runtime: all but the wait for the end of attached output. -/
def isCall (a : Ask) : Bool := (subjectOf a).isSome

theorem ask_call {a : Ask} {subject : String} {step : Step} (ha : subjectOf a = some (subject, step))
    (w : Solo) :
    (w.ask a).1.asked = w.asked ++ [a] ∧ (w.ask a).1.counts = w.counts.more subject step ∧
      (w.ask a).1.runtime = w.runtime ∧
      (w.ask a).2 = (w.runtime.answer subject step (w.counts.of subject step + 1)).2 := by
  have hn : (w.counts.more subject step).of subject step = w.counts.of subject step + 1 := by
    rw [Counts.of, Counts.more, lookup_cons_filter_ne, if_pos rfl]
    rfl
  have hw : (w.note (.asked a)).asked = w.asked ++ [a] := by simp [asked, note]
  unfold ask
  simp only [ha]
  refine ⟨(idle_advance _ _).asked.trans hw, (idle_advance _ _).counts,
    (idle_advance _ _).runtime, ?_⟩
  exact congrArg (fun n => (w.runtime.answer subject step n).2) hn

/-- How far along a container's life a step is. -/
def rank : Step → Nat
  | .pull => 0
  | .create => 1
  | .start => 2
  | .wait => 3
  | .logs => 4
  | .remove => 5

/-- The rank of the step that a stage asks for; the end comes after all of them. -/
def stageRank : Stage → Nat
  | .pulling => 0
  | .creating => 1
  | .starting _ => 2
  | .waiting .. => 3
  | .draining .. | .collecting .. => 4
  | .removing _ => 5
  | .ended _ => 6

theorem stageRank_lt_next {rt : Runtime} {spec : Spec} {stdin : Option Bytes} {stage : Stage} {a : Ask}
    (ha : stage.ask? spec stdin = some a) :
    stageRank stage < stageRank (stage.next (rt.reply a)).1 := by
  cases stage <;> cases ha <;> rw [Runtime.reply]
  case pulling => cases rt.pull spec.image <;> simp [Reply.of, Stage.next, stageRank]
  case creating => cases rt.create spec <;> simp [Reply.of, Stage.next, stageRank]
  case starting id => cases rt.start id spec.name _ <;> simp [Reply.of, Stage.next, stageRank]
  case waiting id attached =>
    cases attached <;> cases rt.wait id spec.name <;> simp [Reply.of, Stage.next, stageRank]
  case draining => exact Nat.lt_succ_self _
  case collecting id _ => cases rt.logs id spec.name <;> simp [Reply.of, Stage.next, stageRank]
  case removing => cases rt.remove spec.name <;> simp [Reply.of, Stage.next, stageRank]

theorem rank_of_ask? {spec : Spec} {stdin : Option Bytes} {stage : Stage} {a : Ask} {subject : String}
    {step : Step} (ha : stage.ask? spec stdin = some a) (hs : subjectOf a = some (subject, step)) :
    rank step = stageRank stage := by
  cases stage <;> cases ha <;> cases hs <;> rfl

/-- A question that is answered is answered as the runtime does, and leaves the calls of later steps
uncounted. -/
theorem ask_reply {spec : Spec} {stdin : Option Bytes} {c : Counts} {stage : Stage} {a : Ask} {r : Reply}
    (ha : stage.ask? spec stdin = some a)
    (hc : ∀ subject step, stageRank stage ≤ rank step → w.counts.of subject step = c.of subject step)
    (h : w.ask a = (w', .reply r)) :
    r = (w.runtime.runtime c).reply a ∧ w'.asked = w.asked ++ [a].filter isCall ∧
      w'.runtime = w.runtime ∧
      ∀ subject step, stageRank stage < rank step → w'.counts.of subject step = c.of subject step := by
  cases hs : subjectOf a with
  | none =>
    obtain ⟨name, rfl⟩ : ∃ name, a = .drain name := by
      cases a <;> first | exact ⟨_, rfl⟩ | cases hs
    cases h
    have idle := idle_drain w w.pumped
    refine ⟨rfl, idle.asked.trans (by simp [isCall, subjectOf]), idle.runtime, fun subject step hr => ?_⟩
    rw [idle.counts]
    exact hc subject step (Nat.le_of_lt hr)
  | some p =>
    obtain ⟨subject, step⟩ := p
    obtain ⟨asked, counts, runtime, answer⟩ := ask_call hs w
    have hr := rank_of_ask? ha hs
    rw [h] at asked counts runtime answer
    refine ⟨(reply_of_answer hs ?_).symm, asked.trans (by simp [isCall, hs]), runtime,
      fun subject' step' hr' => ?_⟩
    · rw [← hc subject step (Nat.le_of_eq hr.symm)]
      exact answer.symm
    · rw [counts, of_more_of_ne _ _ _ (by rintro rfl; omega)]
      exact hc subject' step' (Nat.le_of_lt hr')

/-- The rest of a container's life as it is told is its life with the scripted runtime. -/
theorem liveFrom_lives {spec : Spec} {stdin : Option Bytes} {c : Counts}
    {result : Except Failure Exit} (fuel : Nat) (stage : Stage)
    (hc : ∀ subject step, stageRank stage ≤ rank step → w.counts.of subject step = c.of subject step)
    (h : liveFrom spec stdin fuel w stage = (w', some result)) :
    ∃ asks, (w.runtime.runtime c).Lives spec stdin stage asks result ∧
      w'.asked = w.asked ++ asks.filter isCall := by
  induction fuel generalizing w stage with
  | zero => cases h
  | succ fuel ih =>
    unfold liveFrom at h
    cases ha : stage.ask? spec stdin with
    | none =>
      cases stage <;> cases ha
      cases h
      exact ⟨[], .ended _, by simp⟩
    | some a =>
      simp only [ha] at h
      cases hw : w.ask a with
      | mk w₁ told =>
        cases told with
        | panic => simp [hw] at h
        | reply r =>
          simp only [hw] at h
          obtain ⟨rfl, asked, runtime, counts⟩ := ask_reply ha hc hw
          let reply := (w.runtime.runtime c).reply a
          have idle := (idle_startPump w₁ spec.name reply).trans
            (idle_printAll _ spec.name (stage.next reply).2)
          obtain ⟨asks, lives, told⟩ := ih _ (fun subject step hr => by
            rw [idle.counts]
            exact counts subject step (Nat.lt_of_lt_of_le (stageRank_lt_next ha) hr)) h
          rw [idle.runtime, runtime] at lives
          rw [idle.asked, asked, List.append_assoc, ← List.filter_append] at told
          exact ⟨a :: asks, .asked ha lives, told⟩

/-- A container's life as it is told in simulated time is its life with the scripted runtime, and the
questions of the trace are the calls of that life. -/
theorem live_lives {spec : Spec} {stdin : Option Bytes} {result : Except Failure Exit}
    (h : w.live spec stdin = (w', some result)) :
    ∃ asks, (w.runtime.runtime w.counts).Lives spec stdin .pulling asks result ∧
      w'.asked = w.asked ++ asks.filter isCall :=
  liveFrom_lives 8 .pulling (fun _ _ _ => rfl) h

end Solo

end RunDispatch.Simulation
