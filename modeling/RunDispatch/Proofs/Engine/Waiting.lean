/-
# What a wait comes to

A call that waits for a container sends one request. Its result is the exit status of the first end that
the response tells, and a failure if the response tells none, however that came about: the engine refused,
the connection broke, the answer was no end of a container, or there was nothing in it. So nothing counts as
success but a status of zero that the engine told.

An end may come with an error of the waiting itself. The call does not look at it: a status of zero that
comes with an error is taken for success (`sample_wait_error_overlooked`).

Key definitions: `WritesError`, `endDocument`, `Waits`.
Key theorems: `regains_end`, `wait_told`.
-/
import RunDispatch.Engine.Call
import RunDispatch.Outcome
import RunDispatch.Proofs.Engine.Passes
import RunDispatch.Proofs.Engine.Streams

namespace RunDispatch.Engine

open Json (Value signedLimit)
open Container (Failure)

/-! ### The ends that an engine writes -/

/-- The members in which an engine tells what went wrong with a wait: none or `null` if nothing did, and
otherwise an object that may have a wording. -/
inductive WritesError : Option (Option String) → List (String × Value) → Prop
  | absent : WritesError none []
  | null : WritesError none [("Error", .null)]
  | empty : WritesError (some none) [("Error", .object [])]
  | silent : WritesError (some none) [("Error", .object [("Message", .null)])]
  | worded (message : String) :
    WritesError (some (some message)) [("Error", .object [("Message", .string message)])]

/-- The document that tells the end of a container, with the members of its error. -/
def endDocument (status : Int) (error : List (String × Value)) : Value :=
  .object (("StatusCode", .number (.whole status)) :: error)

theorem regains_error {depth : Nat} {text : List Char} {message : Option String}
    (h : (Json.Reader.optional Json.Reader.string).Regains (depth + 1) text message) :
    exitError.reader.Regains (depth + 2)
      ('\x7b' :: (Json.commaSeparated [Json.quoted "Message".toList ++ ':' :: text] ++ ['\x7d']))
      message :=
  Json.Record.Fills.regains (.put _ rfl (by decide) h (.nil _ _)) rfl

/-- The members that tell an error put it beside the status. -/
theorem fills_error {error : Option (Option String)} {members : List (String × Value)}
    (h : WritesError error members) (depth : Nat) (status : Option Int) :
    ending.Fills (depth + 2) ["StatusCode"] ⟨status, none⟩ (Json.writeMembers members)
      ⟨status, error⟩ := by
  have put : ∀ {text : List Char} {e : Option (Option String)},
      (Json.Reader.optional exitError.reader).Regains (depth + 2) text e →
      ending.Fills (depth + 2) ["StatusCode"] ⟨status, none⟩
        [Json.quoted "Error".toList ++ ':' :: text] ⟨status, e⟩ :=
    fun htext => .put _ rfl (by decide) htext (.nil _ _)
  have object : ∀ {texts : List (List Char)} {m : Option String},
      exitError.reader.Regains (depth + 2) ('\x7b' :: (Json.commaSeparated texts ++ ['\x7d'])) m →
      (Json.Reader.optional exitError.reader).Regains (depth + 2)
        ('\x7b' :: (Json.commaSeparated texts ++ ['\x7d'])) (some m) :=
    fun hm => Json.Reader.regains_optional hm rfl (by decide) (by decide)
  cases h with
  | absent => exact .nil _ _
  | null => exact put (Json.Reader.regains_null _ _)
  | empty => exact put (object (Json.Record.Fills.regains (.nil _ _) rfl))
  | silent => exact put (object (regains_error (Json.Reader.regains_null _ _)))
  | worded m =>
    have hm := Json.Reader.regains_string (depth + 1) m
    exact put (object (regains_error (Json.Reader.regains_optional hm rfl (by decide) (by decide))))

/-- **The end of a container is read back from its document**, with the error that it comes with. -/
theorem regains_end {status : Int} (hlow : -(signedLimit : Int) ≤ status) (hhigh : status < signedLimit)
    {error : Option (Option String)} {members : List (String × Value)} (h : WritesError error members) :
    ending.reader.Regains Json.depthLimit (endDocument status members).write ⟨status, error⟩ :=
  Json.Record.Fills.regains
    (.put _ rfl (by decide) (Json.Reader.regains_int64 _ hlow hhigh) (fills_error h 125 (some status))) rfl

/-! ### The result of a wait -/

def waitRequest (id : String) : Request := post (containerPath id "wait") [("condition", "not-running")]

/-- The ends that a response to a wait tells, and the trouble with which they end, if any. -/
def endsOf (x : Response) : List Ending × Option Trouble := readStream ending.reader x

/-- Whether the result of a wait counts as success. -/
def Succeeded (r : Outcome Int) : Prop :=
  ∃ status, r = .ok status ∧ RunDispatch.Outcome.ofExitStatus status = .ok

/-- What a wait comes to, of what passes between the caller and the engine. -/
structure Waits (id name : String) (x : Response) (passes : List Pass) (r : Outcome Int) : Prop where
  /-- The wait is asked for once, and nothing else is. -/
  asked : passes = [.asked (waitRequest id) x]
  /-- The status of the first end that is told is the result, whatever error comes with it. -/
  told : ∀ e more, (endsOf x).1 = e :: more → r = .ok e.status
  /-- Without an end the wait fails, with what is wrong with the response or for want of a status. -/
  untold : (endsOf x).1 = [] → r = .error (((endsOf x).2.getD .noStatus).failure .wait name)
  /-- A refusal, or a broken connection, is a failure with its own wording. -/
  refused : ∀ t, accept x = .error t → r = .error (t.failure .wait name)
  /-- A response that holds nothing is a failure for want of a status. -/
  empty : ∀ status, succeeds status = true → x = .answered status [] →
    r = .error (Trouble.noStatus.failure .wait name)
  /-- Every status of 64 bits that an engine writes is the result. -/
  written : ∀ httpStatus status error members, succeeds httpStatus = true → httpStatus ≠ 101 →
    -(signedLimit : Int) ≤ status → status < signedLimit → WritesError error members →
    x = .answered httpStatus (Text.utf8Chars (endDocument status members).write) →
    (endsOf x).1 = [⟨status, error⟩] ∧ r = .ok status
  /-- The wait counts as success exactly if the first end that is told has status zero. -/
  success : Succeeded r ↔ ∃ e more, (endsOf x).1 = e :: more ∧ e.status = 0
  /-- So it does although an error is told exactly if the error comes with status zero. -/
  overlooked : (∃ e more, (endsOf x).1 = e :: more ∧ e.error ≠ none ∧ Succeeded r) ↔
    ∃ error more, (endsOf x).1 = ⟨0, some error⟩ :: more

theorem succeeded_ok (status : Int) : Succeeded (.ok status) ↔ status = 0 := by
  constructor
  · rintro ⟨n, hn, hs⟩
    cases hn
    unfold RunDispatch.Outcome.ofExitStatus at hs
    split at hs
    · assumption
    · split at hs <;> cases hs
  · rintro rfl
    exact ⟨0, rfl, rfl⟩

theorem not_succeeded_error (f : Failure) : ¬ Succeeded (.error f) := by
  rintro ⟨n, hn, -⟩
  cases hn

def waitResult (name : String) (x : Response) : Outcome Int :=
  (waited (endsOf x)).mapError (·.failure .wait name)

theorem waitResult_of_told {name : String} {x : Response} {e : Ending} {more : List Ending}
    (h : (endsOf x).1 = e :: more) : waitResult name x = .ok e.status := by
  obtain ⟨t, ht⟩ : ∃ t, endsOf x = (e :: more, t) := ⟨(endsOf x).2, by rw [← h]⟩
  rw [waitResult, ht]
  rfl

theorem waitResult_of_untold {name : String} {x : Response} (h : (endsOf x).1 = []) :
    waitResult name x = .error (((endsOf x).2.getD .noStatus).failure .wait name) := by
  obtain ⟨t, ht⟩ : ∃ t, endsOf x = ([], t) := ⟨(endsOf x).2, by rw [← h]⟩
  rw [waitResult, ht]
  cases t <;> rfl

/-- An end that an engine writes is the only one that its response tells. -/
theorem endsOf_written {httpStatus : Nat} {status : Int} {error : Option (Option String)}
    {members : List (String × Value)} (hs : succeeds httpStatus = true) (hup : httpStatus ≠ 101)
    (hlow : -(signedLimit : Int) ≤ status) (hhigh : status < signedLimit)
    (h : WritesError error members) :
    endsOf (.answered httpStatus (Text.utf8Chars (endDocument status members).write)) =
      ([⟨status, error⟩], none) :=
  readStream_unended hs hup .nil (tells_write (regains_end hlow hhigh h))

theorem waitResult_of_refused {name : String} {x : Response} {t : Trouble} (h : accept x = .error t) :
    waitResult name x = .error (t.failure .wait name) := by
  have hends : endsOf x = ([], some t) := by rw [endsOf, readStream, h]
  rw [waitResult_of_untold (by rw [hends]), hends]
  rfl

theorem waitResult_of_empty {name : String} {status : Nat} (hs : succeeds status = true) :
    waitResult name (.answered status []) = .error (Trouble.noStatus.failure .wait name) := by
  have haccept : accept (.answered status []) = .ok [] := by simp [accept, hs]
  have hends : endsOf (.answered status []) = ([], none) := by
    rw [endsOf, readStream, haccept]
    rfl
  rw [waitResult_of_untold (by rw [hends]), hends]
  rfl

theorem succeeded_waitResult (name : String) (x : Response) :
    Succeeded (waitResult name x) ↔ ∃ e more, (endsOf x).1 = e :: more ∧ e.status = 0 := by
  constructor
  · intro h
    cases hends : (endsOf x).1 with
    | nil =>
      rw [waitResult_of_untold hends] at h
      exact absurd h (not_succeeded_error _)
    | cons e more =>
      rw [waitResult_of_told hends, succeeded_ok] at h
      exact ⟨e, more, rfl, h⟩
  · rintro ⟨e, more, hends, hzero⟩
    rw [waitResult_of_told hends, succeeded_ok]
    exact hzero

/-- An error is taken for success if it comes with status zero. -/
theorem succeeded_with_error (name : String) (x : Response) :
    (∃ e more, (endsOf x).1 = e :: more ∧ e.error ≠ none ∧ Succeeded (waitResult name x)) ↔
      ∃ error more, (endsOf x).1 = ⟨0, some error⟩ :: more := by
  constructor
  · rintro ⟨⟨status, error⟩, more, hends, herror, hok⟩
    rw [waitResult_of_told hends, succeeded_ok] at hok
    obtain ⟨error, rfl⟩ := Option.ne_none_iff_exists'.mp herror
    obtain rfl : status = 0 := hok
    exact ⟨error, more, hends⟩
  · rintro ⟨error, more, hends⟩
    exact ⟨_, more, hends, Option.some_ne_none error, (succeeded_waitResult name x).mpr ⟨_, more, hends, rfl⟩⟩

/-- **What a wait comes to**, with any engine and whatever it responds: the first status that is told, and a
failure if none is. -/
theorem wait_told {σ : Type} (server : Server σ) (s : σ) (id name : String) :
    ∃ x, Waits id name x ((wait id name).against server s).2.1 ((wait id name).against server s).2.2 := by
  refine ⟨(server.serve s (waitRequest id)).2, ?_⟩
  generalize hx : (server.serve s (waitRequest id)).2 = x
  have hpasses : ((wait id name).against server s).2.1 = [.asked (waitRequest id) x] := by
    rw [← hx]
    rfl
  have hresult : ((wait id name).against server s).2.2 = waitResult name x := by
    rw [← hx]
    rfl
  rw [hpasses, hresult]
  refine
    { asked := rfl
      told := fun e more h => waitResult_of_told h
      untold := waitResult_of_untold
      refused := fun t => waitResult_of_refused
      empty := ?_
      written := ?_
      success := succeeded_waitResult name x
      overlooked := succeeded_with_error name x }
  · rintro status hs rfl
    exact waitResult_of_empty hs
  · rintro httpStatus status error members hs hup hlow hhigh h rfl
    have hends := endsOf_written hs hup hlow hhigh h
    have htold : (endsOf (.answered httpStatus (Text.utf8Chars (endDocument status members).write))).1 =
        [⟨status, error⟩] := by rw [hends]
    exact ⟨htold, waitResult_of_told htold⟩

def sampleErrorResponse : Response :=
  .answered 200 (Text.utf8 "\x7b\"StatusCode\":0,\"Error\":\x7b\"Message\":\"e\"\x7d\x7d")

/-- **A failed wait that is taken for success**: the response tells the error `e`, with status zero, and
the connector counts as connected. -/
theorem sample_wait_error_overlooked :
    endsOf sampleErrorResponse = ([⟨0, some (some "e")⟩], none) ∧
      (Simulation.ScriptedEngine.run (wait "abc123" "c1.check")
        (.start [sampleErrorResponse])).2 = .ok 0 ∧
      RunDispatch.Outcome.ofExitStatus 0 = .ok ∧
      (RunDispatch.Outcome.ofExitStatus 0).connectivity = .connected := by
  decide +kernel

end RunDispatch.Engine
