/-
# What the runtime was told

The exchanges of a container's life are the questions put to the runtime, each with its reply. Where
the life stands tells what they have been: up to the removal the questions follow one another in a
fixed order, each answered as it has to be for the next one to be asked, and the removal comes last.

Key definitions: `Exchange`, `Told`.
Key theorems: `told_next`, `Told.ends`, `Told.eq_of_pull_failed`.
-/
import RunDispatch.Container.Lifecycle

namespace RunDispatch.Container

/-- A question to the runtime, and its reply. -/
abbrev Exchange := Ask × Reply

section Exchanges

variable (spec : Spec) (stdin : Option Bytes)

/-- The image was had. -/
def pulled : Exchange := (.pull spec.image, .done)

/-- The container was made. -/
def made (id : String) : Exchange := (.create spec, .created id)

/-- The container was started. -/
def ran (id : String) (attached : Bool) : Exchange :=
  (.start id spec.name (Stage.stdinFor spec stdin), .started attached)

/-- The container ended with a status. -/
def waited (id : String) (status : Int) : Exchange := (.wait id spec.name, .exited status)

/-- The output of the container came to its end: of the attached streams, or of the logs. -/
def output (id : String) (attached : Bool) (chunks : List Chunk) : Exchange :=
  if attached then (.drain spec.name, .done) else (.logs id spec.name, .collected chunks)

/-- What the runtime replied to a removal that failed so, or did not. -/
def removalReply : Option Failure → Reply
  | none => .done
  | some f => .failed f

/-- The exchanges of a container that was waited for, up to its removal. -/
def whole (id : String) (attached : Bool) (status : Int) (chunks : List Chunk) : List Exchange :=
  [pulled spec, made spec id, ran spec stdin id attached, waited spec id status,
    output spec id attached chunks]

/-- Whether a question is one about a container that is being made or is there: neither for its image
nor for its removal. -/
def Ask.isInner : Ask → Bool
  | .pull _ | .remove _ => false
  | _ => true

/-- What the exchanges have been by the time a container's life is at a stage. -/
def Told : Stage → List Exchange → Prop
  | .pulling, log => log = []
  | .creating, log => log = [pulled spec]
  | .starting id, log => log = [pulled spec, made spec id]
  | .waiting id attached, log => log = [pulled spec, made spec id, ran spec stdin id attached]
  | .draining id status, log =>
    log = [pulled spec, made spec id, ran spec stdin id true, waited spec id status]
  | .collecting id status, log =>
    log = [pulled spec, made spec id, ran spec stdin id false, waited spec id status]
  | .removing (.ok (id, status)), log =>
    ∃ attached chunks, log = whole spec stdin id attached status chunks
  | .removing (.error _), log =>
    ∃ inner, log = pulled spec :: inner ∧ ∀ e ∈ inner, e.1.isInner = true
  | .ended (.ok exit), log =>
    ∃ attached chunks, log = whole spec stdin exit.id attached exit.status chunks ++
      [(.remove spec.name, removalReply exit.cleanup)]
  | .ended (.error f), log =>
    log = [(.pull spec.image, .failed f)] ∨
    ∃ inner cleanup, log = pulled spec :: inner ++ [(.remove spec.name, removalReply cleanup)] ∧
      ∀ e ∈ inner, e.1.isInner = true

end Exchanges

section Told

variable {spec : Spec} {stdin : Option Bytes} {stage : Stage} {log : List Exchange}

/-- What is told of a container that goes wrong is one question more, and not that of its image or its
removal. -/
theorem told_failed (inner : List Exchange) (h : ∀ e ∈ inner, e.1.isInner = true) (f : Failure)
    {ask : Ask} (ha : ask.isInner = true) (reply : Reply) :
    Told spec stdin (.removing (.error f)) (pulled spec :: inner ++ [(ask, reply)]) := by
  refine ⟨inner ++ [(ask, reply)], rfl, fun e he => ?_⟩
  rcases List.mem_append.mp he with he | he
  · exact h e he
  · rw [List.mem_singleton.mp he]
    exact ha

theorem told_removed {result : Except Failure (String × Int)}
    (h : Told spec stdin (.removing result) log) (cleanup : Option Failure) :
    Told spec stdin (.ended (Stage.exit result cleanup))
      (log ++ [(.remove spec.name, removalReply cleanup)]) := by
  cases result with
  | ok waited =>
    obtain ⟨attached, chunks, rfl⟩ := h
    exact ⟨attached, chunks, rfl⟩
  | error f =>
    obtain ⟨inner, rfl, hi⟩ := h
    exact .inr ⟨inner, _, rfl, hi⟩

/-- **One more exchange.** A reply that leads on leads to a stage that knows of it. -/
theorem told_next (h : Told spec stdin stage log) {ask : Ask}
    (ha : stage.ask? spec stdin = some ask) (reply : Reply) (hne : (stage.next reply).1 ≠ stage) :
    Told spec stdin (stage.next reply).1 (log ++ [(ask, reply)]) := by
  revert hne
  fun_cases Stage.next stage reply <;> intro hne
  case case15 => exact absurd rfl hne
  all_goals
    cases ha
  -- The removal.
  case case13 result f => exact told_removed h (some f)
  case case14 result => exact told_removed h none
  all_goals
    cases h
  -- What fails before the container is there, or while it is.
  case case1 f => exact .inl rfl
  case case3 f => exact told_failed [] (by simp) f rfl _
  case case5 id f => exact told_failed [made spec id] (by simp [made, Ask.isInner]) f rfl _
  case case7 id attached f =>
    exact told_failed [made spec id, ran spec stdin id attached]
      (by simp [made, ran, Ask.isInner]) f rfl _
  case case11 id status f =>
    exact told_failed [made spec id, ran spec stdin id false, waited spec id status]
      (by simp [made, ran, waited, Ask.isInner]) f rfl _
  -- The output, attached or not.
  case case10 id status => exact ⟨true, [], rfl⟩
  case case12 id status chunks => exact ⟨false, chunks, rfl⟩
  all_goals rfl

/-! ### What is read off the exchanges -/

theorem whole_inner (spec : Spec) (stdin : Option Bytes) (id : String) (attached : Bool)
    (status : Int) (chunks : List Chunk) :
    ∃ inner, whole spec stdin id attached status chunks = pulled spec :: inner ∧
      ∀ e ∈ inner, e.1.isInner = true := by
  refine ⟨_, rfl, ?_⟩
  cases attached <;> simp [made, ran, waited, output, Ask.isInner]

/-- **A container's life ends in its removal**, or before it began: for want of its image. -/
theorem Told.ends {result : Except Failure Exit} (h : Told spec stdin (.ended result) log) :
    (∃ f, result = .error f ∧ log = [(.pull spec.image, .failed f)]) ∨
    ∃ inner cleanup,
      log = pulled spec :: inner ++ [(.remove spec.name, removalReply cleanup)] ∧
        ∀ e ∈ inner, e.1.isInner = true := by
  cases result with
  | ok exit =>
    obtain ⟨attached, chunks, rfl⟩ := h
    obtain ⟨inner, hw, hi⟩ := whole_inner spec stdin exit.id attached exit.status chunks
    exact .inr ⟨inner, exit.cleanup, by rw [hw], hi⟩
  | error f =>
    rcases h with h | h
    · exact .inl ⟨f, rfl, h⟩
    · exact .inr h

theorem pull_failed_not_mem {inner : List Exchange} (hi : ∀ e ∈ inner, e.1.isInner = true)
    (image : Image) (f : Failure) : (.pull image, .failed f) ∉ pulled spec :: inner := by
  intro hm
  rcases List.mem_cons.mp hm with hm | hm
  · simp [pulled] at hm
  · simpa [Ask.isInner] using hi _ hm

theorem Told.eq_of_pull_failed {result : Except Failure Exit}
    (h : Told spec stdin (.ended result) log) {image : Image} {f : Failure}
    (hm : (.pull image, .failed f) ∈ log) : log = [(.pull spec.image, .failed f)] := by
  rcases h.ends with ⟨g, -, rfl⟩ | ⟨inner, cleanup, rfl, hi⟩
  · simp at hm
    rw [hm.2]
  · rcases List.mem_append.mp hm with hm | hm
    · exact absurd hm (pull_failed_not_mem hi image f)
    · simp at hm

end Told

end RunDispatch.Container
