/-
# What the calls to an engine come to

Whatever an engine answers, and however long the progress of a pull is: an image is there at the end exactly
if it was there or was missing and got pulled without an error; a container whose input is fed is attached
before it starts, and gets its payload after that; and a container that is to go is removed by force unless
the engine knows no such container, so that a removal that succeeds means that it is gone.

Two things are not told as they are. An error in the progress of a pull is reported without its wording, and
an engine that says that it knows no such thing is understood only if the body of its answer is empty or
JSON (`sample_wording_lost`).

Key definitions: `Absent`, `WritesProgress`, `Pulls`, `EnsuresImage`, `Started`, `StopsAndRemoves`,
`MeetsContract`.
Key theorems: `absent_iff`, `absent_written`, `tells_progress`, `meets_contract`.
-/
import RunDispatch.Engine.Call
import RunDispatch.Proofs.Engine.Passes
import RunDispatch.Proofs.Engine.Streams

namespace RunDispatch.Engine

open Container (Failure Chunk)
open Json (Value)

/-! ### What is missing -/

/-- Whether a body is empty or JSON, of whatever shape as far as it is read for a message. -/
def Legible (body : Bytes) : Prop :=
  body = [] ∨ ∀ path m, Json.parse messageRecord.reader (Text.readUtf8 body).toList ≠
    .error ⟨path, .malformed m⟩

/-- Whether an engine says that it knows no such thing, in words that can be read. -/
def Absent (x : Response) : Prop := ∃ body, x = .answered 404 body ∧ Legible body

theorem refusal_of_legible {body : Bytes} (h : Legible body) (status : Nat) :
    ∃ message, refusal status body = .refused status message := by
  by_cases hbody : body.isEmpty = true
  · exact ⟨"", if_pos hbody⟩
  have h := h.resolve_left fun hnil => hbody (List.isEmpty_iff.mpr hnil)
  rw [refusal, if_neg hbody]
  cases hparse : Json.parse messageRecord.reader (Text.readUtf8 body).toList with
  | ok message => exact ⟨message, rfl⟩
  | error f =>
    obtain ⟨path, m | m⟩ := f
    · exact absurd hparse (h path m)
    · exact ⟨Text.readUtf8 body, rfl⟩

/-- A refusal that tells a status is one whose body can be read, and tells its own. -/
theorem legible_of_refusal {status told : Nat} {body : Bytes} {message : String}
    (h : refusal status body = .refused told message) : Legible body ∧ status = told := by
  unfold refusal at h
  by_cases hbody : body.isEmpty = true
  · rw [if_pos hbody] at h
    cases h
    exact ⟨.inl (List.isEmpty_iff.mp hbody), rfl⟩
  rw [if_neg hbody] at h
  cases hparse : Json.parse messageRecord.reader (Text.readUtf8 body).toList with
  | ok _ =>
    rw [hparse] at h
    cases h
    exact ⟨.inr fun path m hm => (by rw [hm] at hparse; cases hparse), rfl⟩
  | error f =>
    obtain ⟨path, m | m⟩ := f <;> rw [hparse] at h <;> cases h
    exact ⟨.inr fun path m hm => (by rw [hm] at hparse; cases hparse), rfl⟩

/-- **What is absent** is what is refused with status 404. -/
theorem absent_iff (x : Response) : Absent x ↔ ∃ message, accept x = .error (.refused 404 message) := by
  constructor
  · rintro ⟨body, rfl, h⟩
    obtain ⟨message, hm⟩ := refusal_of_legible h 404
    exact ⟨message, congrArg Except.error hm⟩
  · rintro ⟨message, h⟩
    cases x with
    | closed => cases h
    | answered status body =>
      rw [accept] at h
      split at h
      · obtain ⟨hbody, rfl⟩ := legible_of_refusal (Except.error.inj h)
        exact ⟨body, rfl, hbody⟩
      · split at h <;> cases h

theorem isMissing_iff (t : Trouble) : t.isMissing = true ↔ ∃ message, t = .refused 404 message := by
  constructor
  · intro h
    unfold Trouble.isMissing at h
    split at h
    · exact ⟨_, rfl⟩
    · cases h
  · rintro ⟨message, rfl⟩
    rfl

/-- The document in which an engine says why it refuses. -/
def refusalDocument (message : String) : Value := .object [("message", .string message)]

/-- **An engine that refuses with status 404 and a message of its own** is understood. -/
theorem absent_written (message : String) :
    Absent (.answered 404 (Text.utf8Chars (refusalDocument message).write)) := by
  have hregains : messageRecord.reader.Regains Json.depthLimit (refusalDocument message).write message :=
    Json.Record.Fills.regains (.put _ rfl (by decide) (Json.Reader.regains_string _ message) (.nil _ _)) rfl
  refine ⟨_, rfl, .inr fun path m hm => ?_⟩
  rw [Text.readUtf8, Text.readUtf8Chars_utf8Chars, String.toList_ofList, hregains.parse_eq] at hm
  cases hm

/-! ### The progress of a pull -/

/-- The members of a line of progress as an engine writes it: what it is at, or an error. -/
inductive WritesProgress : Option String → List (String × Value) → Prop
  | status (text : String) : WritesProgress none [("status", .string text)]
  | error (message : String) : WritesProgress (some message) [("error", .string message)]
  | detailed (message : String) : WritesProgress (some message)
    [("errorDetail", .object [("message", .string message)]), ("error", .string message)]

/-- A line of progress tells the error that is written in it, if one is. -/
theorem tells_progress {item : Option String} {members : List (String × Value)}
    (h : WritesProgress item members) :
    Tells progress.reader (Value.object members).write item := by
  have string : ∀ (depth : Nat) (text : String),
      (Json.Reader.optional Json.Reader.string).Regains depth (Value.string text).write (some text) :=
    fun depth text => Json.Reader.regains_optional (Json.Reader.regains_string depth text) rfl
      (by decide) (by decide)
  refine tells_write (Json.Record.Fills.regains ?_ rfl)
  cases h with
  | status text =>
    exact .put (fun _ d => d) rfl (by decide) (string _ text) (.nil _ _)
  | error message =>
    exact .put (fun e _ => e) rfl (by decide) (string _ message) (.nil _ _)
  | detailed message =>
    have detail : errorDetail.reader.Regains 127
        (Value.object [("message", .string message)]).write () :=
      Json.Record.Fills.regains
        (.put (fun _ d => d) rfl (by decide) (string _ message) (.nil _ _)) rfl
    have detail := Json.Reader.regains_optional detail rfl (by decide) (by decide)
    exact .put (fun _ d => d) rfl (by decide) detail
      (.put (fun e _ => e) rfl (by decide) (string _ message) (.nil _ _))

theorem tells_documents {items : List (Option String)} {documents : List (List (String × Value))}
    (h : List.Forall₂ WritesProgress items documents) :
    List.Forall₂ (Tells progress.reader) (documents.map fun ms => (Value.object ms).write) items := by
  rw [List.forall₂_map_left_iff]
  exact h.flip.imp fun _ _ => tells_progress

def pullRequest (i : Image) : Request :=
  post "/images/create"
    [ ("fromImage", i.repository), ("fromSrc", ""), ("repo", ""), ("tag", i.tag), ("platform", "") ]

/-- The progress that a response to a pull tells, and the trouble with which it ends, if any. -/
def progressOf (x : Response) : List (Option String) × Option Trouble := readStream progress.reader x

/-- What a pull comes to that gets a response. -/
structure Pulls (i : Image) (x : Response) (r : Outcome Unit) : Prop where
  /-- It succeeds exactly if the progress is told to its end, and no error in it. -/
  done : r = .ok () ↔ (progressOf x).2 = none ∧ ∀ item ∈ (progressOf x).1, item = none
  /-- An error that is told makes it fail, with the same wording whatever the error is. -/
  failed : (∃ message, some message ∈ (progressOf x).1) →
    r = .error ⟨.pull, i.display, "Docker stream error"⟩
  /-- Trouble with the response, or with a line of it, makes it fail with its own wording, if no error is
  told before. -/
  troubled : ∀ t, (progressOf x).2 = some t → (∀ item ∈ (progressOf x).1, item = none) →
    r = .error (t.failure .pull i.display)
  /-- The lines of progress that an engine writes are all read, however many they are. -/
  written : ∀ status items documents, succeeds status = true → status ≠ 101 →
    List.Forall₂ WritesProgress items documents →
    x = .answered status (Text.utf8Chars (ended (documents.map fun ms => (Value.object ms).write))) →
    progressOf x = (items, none)
  /-- A line after these that tells no progress is trouble, whatever follows it. -/
  broken : ∀ status items documents line t more, succeeds status = true → status ≠ 101 →
    List.Forall₂ WritesProgress items documents → line ≠ [] → '\n' ∉ line →
    readPiece progress.reader line = .error t →
    x = .answered status (Text.utf8Chars
      (ended (documents.map fun ms => (Value.object ms).write) ++ (line ++ '\n' :: more))) →
    progressOf x = (items, some t)

/-- The result of a pull as its response tells it. -/
def pullResult (i : Image) (x : Response) : Outcome Unit :=
  (pulled (progressOf x)).mapError (·.failure .pull i.display)

theorem pullResult_of_error {i : Image} {x : Response} {message : String}
    (h : some message ∈ (progressOf x).1) :
    pullResult i x = .error ⟨.pull, i.display, "Docker stream error"⟩ := by
  have hany : (progressOf x).1.any Option.isSome = true := List.any_eq_true.mpr ⟨_, h, rfl⟩
  rw [pullResult, pulled, if_pos hany]
  rfl

theorem pullResult_of_clean {i : Image} {x : Response} (h : ∀ item ∈ (progressOf x).1, item = none) :
    pullResult i x =
      match (progressOf x).2 with
      | some t => .error (t.failure .pull i.display)
      | none => .ok () := by
  have hany : ¬ (progressOf x).1.any Option.isSome = true := by
    intro hany
    obtain ⟨item, hm, hs⟩ := List.any_eq_true.mp hany
    rw [h item hm] at hs
    cases hs
  rw [pullResult, pulled, if_neg hany]
  cases (progressOf x).2 <;> rfl

/-- **What a pull comes to**, whatever its response. -/
theorem pulls (i : Image) (x : Response) : Pulls i x (pullResult i x) where
  done := by
    by_cases hclean : ∀ item ∈ (progressOf x).1, item = none
    · rw [pullResult_of_clean hclean]
      cases (progressOf x).2 with
      | none => exact ⟨fun _ => ⟨rfl, hclean⟩, fun _ => rfl⟩
      | some t => exact ⟨fun h => (by cases h), fun h => (by cases h.1)⟩
    · obtain ⟨item, hm, hne⟩ : ∃ item ∈ (progressOf x).1, item ≠ none := by simpa using hclean
      obtain ⟨message, rfl⟩ := Option.ne_none_iff_exists'.mp hne
      rw [pullResult_of_error hm]
      exact ⟨fun h => (by cases h), fun h => absurd h.2 hclean⟩
  failed := fun ⟨_, hm⟩ => pullResult_of_error hm
  troubled t ht hclean := by rw [pullResult_of_clean hclean, ht]
  written := by
    rintro status items documents hs hup h rfl
    exact readStream_lines hs hup (tells_documents h)
  broken := by
    rintro status items documents line t more hs hup h hne hline ht rfl
    exact readStream_broken hs hup (tells_documents h) hne hline ht more

/-! ### The calls -/

def inspectRequest (i : Image) : Request := get ("/images/" ++ i.display ++ "/json") []

def attachRequest (id : String) : Request :=
  post (containerPath id "attach")
    [("stdin", "true"), ("stdout", "true"), ("stderr", "true"), ("stream", "true"), ("logs", "false")]

def startRequest (id : String) : Request := post (containerPath id "start") []

def stopRequest (grace : Nat) (name : String) : Request :=
  post (containerPath name "stop") [("t", toString (min grace maxGrace))]

def removeRequest (name : String) : Request :=
  ⟨"DELETE", "/containers/" ++ name, [("v", "true"), ("force", "true"), ("link", "false")], none⟩

/-- What making sure of an image comes to, by the response to its inspection and what passes after
that. -/
structure EnsuresImage (i : Image) (x : Response) (rest : List Pass) (r : Outcome Unit) : Prop where
  /-- An image that is there is all that is wanted. -/
  present : readBody image.reader x = .ok () → rest = [] ∧ r = .ok ()
  /-- An image that is absent is pulled. -/
  absent : Absent x → ∃ y, rest = [.asked (pullRequest i) y] ∧ Pulls i y r
  /-- Any other answer is a failure with its own wording, and nothing is pulled. -/
  unknown : ∀ t, readBody image.reader x = .error t → ¬ Absent x →
    rest = [] ∧ r = .error (t.failure .pull i.display)
  /-- It succeeds exactly if the image is there, or is absent and is pulled to the end without an
  error. -/
  success : r = .ok () ↔ readBody image.reader x = .ok () ∨
    Absent x ∧ ∃ y, rest = [.asked (pullRequest i) y] ∧
      (progressOf y).2 = none ∧ ∀ item ∈ (progressOf y).1, item = none

/-- What passes when a container is started, by the payload for its input, and what comes of it. -/
inductive Started (id name : String) :
    Option Bytes → List Pass → Outcome (Option (List Chunk)) → Prop
  /-- Without a payload the container is only started. -/
  | plain {y : Response} {body : Bytes} (hy : accept y = .ok body) :
    Started id name none [.asked (startRequest id) y] (.ok none)
  | refused {y : Response} {t : Trouble} (hy : accept y = .error t) :
    Started id name none [.asked (startRequest id) y] (.error (t.failure .start name))
  /-- With a payload its streams are attached first. -/
  | unattached {payload : Bytes} {x : Response} {t : Trouble} (hx : acceptStream x = .error t) :
    Started id name (some payload) [.asked (attachRequest id) x] (.error (t.failure .attach name))
  | unstarted {payload output : Bytes} {x y : Response} {t : Trouble} (hx : acceptStream x = .ok output)
    (hy : accept y = .error t) :
    Started id name (some payload) [.asked (attachRequest id) x, .asked (startRequest id) y]
      (.error (t.failure .start name))
  /-- The payload follows the start, all of it and terminated, and its input is closed then. -/
  | fed {payload output body : Bytes} {x y : Response} (hx : acceptStream x = .ok output)
    (hy : accept y = .ok body) :
    Started id name (some payload)
      [.asked (attachRequest id) x, .asked (startRequest id) y, .fed (terminated payload) none]
      (.ok (some (attachedChunks output)))
  | unwritten {payload output body : Bytes} {x y : Response} {detail : String}
    (hx : acceptStream x = .ok output) (hy : accept y = .ok body) :
    Started id name (some payload)
      [.asked (attachRequest id) x, .asked (startRequest id) y, .fed (terminated payload) (some detail)]
      (.error ⟨.attach, name, "Unable to stream standard input: " ++ detail⟩)

/-- What stopping and removing a container comes to, by the response to its stop and what passes after
that. -/
structure StopsAndRemoves (name : String) (x : Response) (rest : List Pass) (r : Outcome Unit) :
    Prop where
  /-- A container that is absent is all that is wanted. -/
  absent : Absent x → rest = [] ∧ r = .ok ()
  /-- After any other answer it is removed by force. Success is that it is removed or absent, and
  any other answer to the removal is a failure with its own wording. -/
  removed : ¬ Absent x → ∃ y, rest = [.asked (removeRequest name) y] ∧
    (r = .ok () ↔ (∃ body, accept y = .ok body) ∨ Absent y) ∧
    ∀ t, accept y = .error t → ¬ Absent y → r = .error (t.failure .cleanup name)

/-- What the calls to an engine come to. -/
structure MeetsContract {σ : Type} (server : Server σ) : Prop where
  /-- An engine that refuses with status 404 is understood, with any message of its own and with none. -/
  refusals : Absent (.answered 404 []) ∧
    ∀ message, Absent (.answered 404 (Text.utf8Chars (refusalDocument message).write))
  images : ∀ s i, ∃ x rest, ((ensureImage i).against server s).2.1 = .asked (inspectRequest i) x :: rest ∧
    EnsuresImage i x rest ((ensureImage i).against server s).2.2
  starts : ∀ s id name stdin,
    Started id name stdin ((start id name stdin).against server s).2.1
      ((start id name stdin).against server s).2.2
  removals : ∀ s grace name, ∃ x rest,
    ((stopAndRemove grace name).against server s).2.1 = .asked (stopRequest grace name) x :: rest ∧
    StopsAndRemoves name x rest ((stopAndRemove grace name).against server s).2.2

theorem absent_iff_of_accept {x : Response} {t : Trouble} (h : accept x = .error t) :
    Absent x ↔ t.isMissing = true := by
  rw [absent_iff, isMissing_iff, h]
  exact exists_congr fun _ => ⟨Except.error.inj, congrArg Except.error⟩

/-- Trouble with the value in an answer tells that the thing is absent if the answer does. -/
theorem absent_iff_of_readBody {α : Type} {reader : Json.Reader α} {x : Response} {t : Trouble}
    (h : readBody reader x = .error t) : Absent x ↔ t.isMissing = true := by
  cases ha : accept x with
  | error u =>
    rw [readBody, ha] at h
    cases h
    exact absent_iff_of_accept ha
  | ok body =>
    have hparse : (Json.parse reader (Text.readUtf8Chars body)).mapError Trouble.ofFailure = .error t := by
      rw [readBody, ha] at h
      exact h
    rw [absent_iff, ha]
    cases hp : Json.parse reader (Text.readUtf8Chars body) with
    | ok _ =>
      rw [hp] at hparse
      cases hparse
    | error f =>
      rw [hp] at hparse
      obtain ⟨path, m | m⟩ := f <;> cases hparse <;>
        exact ⟨fun ⟨_, hm⟩ => (by cases hm), fun hm => (by cases hm)⟩

theorem readBody_of_absent {α : Type} (reader : Json.Reader α) {x : Response} (h : Absent x) :
    ∃ t, readBody reader x = .error t := by
  obtain ⟨message, hm⟩ := (absent_iff x).mp h
  exact ⟨.refused 404 message, by rw [readBody, hm]; rfl⟩

section

variable {σ : Type} (server : Server σ)

/-! #### Images -/

def afterInspection (i : Image) (x : Response) : Exchange (Outcome Unit) :=
  match readBody image.reader x with
  | .ok () => .done (.ok ())
  | .error t => if t.isMissing then pull i else .done (.error (t.failure .pull i.display))

theorem pull_against (s : σ) (i : Image) :
    ∃ y, ((pull i).against server s).2.1 = [.asked (pullRequest i) y] ∧
      ((pull i).against server s).2.2 = pullResult i y :=
  ⟨_, rfl, rfl⟩

theorem afterInspection_ensures (s : σ) (i : Image) (x : Response) :
    EnsuresImage i x ((afterInspection i x).against server s).2.1
      ((afterInspection i x).against server s).2.2 := by
  unfold afterInspection
  cases h : readBody image.reader x with
  | ok _ =>
    have hpresent : ¬ Absent x := fun ha => by
      obtain ⟨t, ht⟩ := readBody_of_absent image.reader ha
      rw [h] at ht
      cases ht
    exact
      { present := fun _ => ⟨rfl, rfl⟩
        absent := fun ha => absurd ha hpresent
        unknown := fun t ht => by rw [h] at ht; cases ht
        success := ⟨fun _ => .inl h, fun _ => rfl⟩ }
  | error t =>
    have hnot : readBody image.reader x ≠ .ok () := by
      rw [h]
      exact fun ht => by cases ht
    by_cases ha : Absent x
    · obtain ⟨y, hpasses, hresult⟩ := pull_against server s i
      simp only [if_pos ((absent_iff_of_readBody h).mp ha), hpasses, hresult]
      exact
        { present := fun ht => absurd ht hnot
          absent := fun _ => ⟨y, rfl, pulls i y⟩
          unknown := fun _ _ hna => absurd ha hna
          success := by
            rw [(pulls i y).done]
            refine ⟨fun hd => .inr ⟨ha, y, rfl, hd⟩, fun hd => ?_⟩
            obtain ⟨-, y', hy, hd⟩ := hd.resolve_left hnot
            cases hy
            exact hd }
    · simp only [if_neg fun ht => ha ((absent_iff_of_readBody h).mpr ht)]
      exact
        { present := fun ht => absurd ht hnot
          absent := fun ha' => absurd ha' ha
          unknown := fun t' ht _ => by
            rw [h] at ht
            cases ht
            exact ⟨rfl, rfl⟩
          success := ⟨fun hd => (by cases hd), fun hd => absurd (hd.resolve_left hnot).1 ha⟩ }

/-! #### Starts -/

theorem startPlain_against (s : σ) (id name : String) :
    ∃ y, ((startPlain id name).against server s).2.1 = [.asked (startRequest id) y] ∧
      ((startPlain id name).against server s).2.2 =
        ((accept y).map fun _ => ()).mapError (·.failure .start name) :=
  ⟨_, rfl, rfl⟩

theorem stream_against (s : σ) (name : String) (payload : Bytes) :
    ∃ trouble, ((stream name payload).against server s).2.1 = [.fed (terminated payload) trouble] ∧
      ((stream name payload).against server s).2.2 =
        match trouble with
        | none => .ok ()
        | some detail => .error ⟨.attach, name, "Unable to stream standard input: " ++ detail⟩ := by
  rw [stream, Exchange.against_feed]
  generalize server.take s (terminated payload) = taken
  obtain ⟨s, trouble⟩ := taken
  refine ⟨trouble, ?_⟩
  cases trouble <;> exact ⟨rfl, rfl⟩

/-- How a start goes on after the streams are asked to be attached. -/
def afterAttach (id name : String) (payload : Bytes) (x : Response) :
    Exchange (Outcome (Option (List Chunk))) :=
  match acceptStream x with
  | .error t => .done (.error (t.failure .attach name))
  | .ok output =>
    (startPlain id name).bind fun
      | .error f => .done (.error f)
      | .ok () => (stream name payload).map (·.map fun () => some (attachedChunks output))

theorem afterAttach_started (s : σ) (id name : String) (payload : Bytes) (x : Response) :
    Started id name (some payload)
      (.asked (attachRequest id) x :: ((afterAttach id name payload x).against server s).2.1)
      ((afterAttach id name payload x).against server s).2.2 := by
  unfold afterAttach
  cases hx : acceptStream x with
  | error t => exact .unattached hx
  | ok output =>
    obtain ⟨y, hpasses, hresult⟩ := startPlain_against server s id name
    rw [Exchange.against_bind]
    generalize (startPlain id name).against server s = answered at hpasses hresult
    obtain ⟨s, passes, r⟩ := answered
    simp only at hpasses hresult
    subst hpasses hresult
    cases hy : accept y with
    | error t => exact .unstarted hx hy
    | ok body =>
      obtain ⟨trouble, hfed, hwritten⟩ := stream_against server s name payload
      simp only [Except.map, Except.mapError, Exchange.against_map, hfed, hwritten]
      cases trouble with
      | none => exact .fed hx hy
      | some detail => exact .unwritten hx hy

theorem start_started (s : σ) (id name : String) (stdin : Option Bytes) :
    Started id name stdin ((start id name stdin).against server s).2.1
      ((start id name stdin).against server s).2.2 := by
  cases stdin with
  | none =>
    obtain ⟨y, hpasses, hresult⟩ := startPlain_against server s id name
    rw [start, Exchange.against_map, hpasses, hresult]
    cases hy : accept y with
    | ok body => exact .plain hy
    | error t => exact .refused hy
  | some payload => exact afterAttach_started server _ id name payload _

/-! #### Removals -/

/-- What a removal sends, and what it comes to. -/
theorem remove_against (s : σ) (name : String) :
    ∃ y, ((remove name).against server s).2.1 = [.asked (removeRequest name) y] ∧
      (((remove name).against server s).2.2 = .ok () ↔ (∃ body, accept y = .ok body) ∨ Absent y) ∧
      ∀ t, accept y = .error t → ¬ Absent y →
        ((remove name).against server s).2.2 = .error (t.failure .cleanup name) := by
  rw [remove, Exchange.against_send, ← removeRequest]
  generalize server.serve s (removeRequest name) = answered
  obtain ⟨s, y⟩ := answered
  refine ⟨y, ?_⟩
  simp only
  cases hy : accept y with
  | ok body => exact ⟨rfl, ⟨fun _ => .inl ⟨body, rfl⟩, fun _ => rfl⟩, fun t ht => by cases ht⟩
  | error t =>
    by_cases ha : Absent y
    · simp only [if_pos ((absent_iff_of_accept hy).mp ha)]
      exact ⟨rfl, ⟨fun _ => .inr ha, fun _ => rfl⟩, fun _ _ hna => absurd ha hna⟩
    · simp only [if_neg fun ht => ha ((absent_iff_of_accept hy).mpr ht)]
      refine ⟨rfl, ⟨fun h => (by cases h), fun h => ?_⟩, fun t' ht _ => ?_⟩
      · rcases h with ⟨_, h⟩ | h
        · cases h
        · exact absurd h ha
      · cases ht
        rfl

def afterStop (name : String) (x : Response) : Exchange (Outcome Unit) :=
  match accept x with
  | .ok _ => remove name
  | .error t => if t.isMissing then .done (.ok ()) else remove name

theorem afterStop_removes (s : σ) (name : String) (x : Response) :
    StopsAndRemoves name x ((afterStop name x).against server s).2.1
      ((afterStop name x).against server s).2.2 := by
  unfold afterStop
  have hremove := remove_against server s name
  cases hx : accept x with
  | ok _ =>
    refine ⟨fun ha => ?_, fun _ => hremove⟩
    obtain ⟨message, hm⟩ := (absent_iff x).mp ha
    rw [hx] at hm
    cases hm
  | error t =>
    by_cases ha : Absent x
    · simp only [if_pos ((absent_iff_of_accept hx).mp ha)]
      exact ⟨fun _ => ⟨rfl, rfl⟩, fun hna => absurd ha hna⟩
    · simp only [if_neg fun ht => ha ((absent_iff_of_accept hx).mpr ht)]
      exact ⟨fun ha' => absurd ha' ha, fun _ => hremove⟩

end

/-- **The calls meet their contract** with any engine, whatever it answers. -/
theorem meets_contract {σ : Type} (server : Server σ) : MeetsContract server where
  refusals := ⟨⟨[], rfl, .inl rfl⟩, absent_written⟩
  images _ i := ⟨_, _, rfl, afterInspection_ensures server _ i _⟩
  starts := start_started server
  removals _ _ name := ⟨_, _, rfl, afterStop_removes server _ name _⟩

def sampleImage : Image := ⟨"team/img", "v1"⟩

/-- **What an engine says that is not told**: the error `denied` of a pull is reported without its
wording; and an engine that answers with status 404 and a body that is no JSON is not understood, so that
an absent image is not pulled and an absent container is a failure. -/
theorem sample_wording_lost :
    (Simulation.ScriptedEngine.run (ensureImage sampleImage) (.start
        [ .answered 404 (Text.utf8 "\x7b\"message\": \"no such image\"\x7d"),
          .answered 200 (Text.utf8 "\x7b\"error\":\"denied\"\x7d\n") ])).2 =
      .error ⟨.pull, "team/img:v1", "Docker stream error"⟩ ∧
    (Simulation.ScriptedEngine.run (ensureImage sampleImage) (.start
        [.answered 404 (Text.utf8 "<html>"), .answered 200 []])).2 =
      .error ⟨.pull, "team/img:v1", "expected value"⟩ ∧
    (Simulation.ScriptedEngine.run (stopAndRemove 10 "c1.check") (.start
        [.answered 404 (Text.utf8 "<html>"), .answered 404 (Text.utf8 "<html>")])).2 =
      .error ⟨.cleanup, "c1.check", "expected value"⟩ := by
  decide +kernel

end RunDispatch.Engine
