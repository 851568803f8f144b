/-
# An engine with containers

What a container engine does with the containers that stand on its host is told by its documentation: it
stops and removes a container only when it is asked to stop or to remove one that goes by the name or the
identifier given, it refuses to make a container under a name that is taken, and all other requests leave
the containers that stand there alone. A container goes by its name, and by whatever its identifier begins
with.

Of the questions that a worker asks, only that for a removal sends requests of the first sort, and both of
its requests name the container that was to be removed (`answer_obeys`).

Key definitions: `Standing`, `Standing.CalledBy`, `Host`, `Host.Has`, `Host.Documented`, `sampleHost`,
`Exchange.Obeys`.
Key theorems: `sampleHost_documented`, `answer_obeys`, `answer_create`.
-/
import RunDispatch.Engine.Call

namespace RunDispatch.Engine

open Container

/-! ### Containers that stand on a host -/

/-- A container on a host. -/
structure Standing where
  id : String
  name : String
  running : Bool
  deriving DecidableEq, Repr

/-- Whether a container goes by a reference: its name, or what its identifier begins with. -/
def Standing.CalledBy (c : Standing) (ref : String) : Prop :=
  c.name = ref ∨ ref.toList <+: c.id.toList

/-- An engine on its host: the containers that stand there, and what can become of it when it answers a
request, or is given octets for an attached stream. -/
structure Host (σ : Type) where
  standing : σ → List Standing
  serves : σ → Request → Response → σ → Prop
  feeds : σ → Bytes → Option String → σ → Prop

/-- Whether a container stands on a host, and runs if it did. -/
def Host.Has {σ : Type} (host : Host σ) (c : Standing) (s : σ) : Prop :=
  ∃ c' ∈ host.standing s, c'.id = c.id ∧ c'.name = c.name ∧ (c.running = true → c'.running = true)

/-- A container stands on as long as all that have its identifier and its name stay. -/
theorem Host.Has.keeps {σ : Type} {host : Host σ} {c : Standing} {s s' : σ} (h : host.Has c s)
    (hk : ∀ c' ∈ host.standing s, c'.id = c.id → c'.name = c.name → c' ∈ host.standing s') :
    host.Has c s' := by
  obtain ⟨c', hc', hid, hname, hr⟩ := h
  exact ⟨c', hk c' hc' hid hname, hid, hname, hr⟩

/-! ### What an engine's documentation says -/

/-- The requests that stop or remove no container. -/
inductive Request.Gentle : Request → Prop
  | image (ref : String) (query : List (String × String)) :
      Gentle (get ("/images/" ++ ref ++ "/json") query)
  | pull (query : List (String × String)) : Gentle (post "/images/create" query)
  | create (query : List (String × String)) (body : Option Json.Value) :
      Gentle ⟨"POST", "/containers/create", query, body⟩
  | attach (id : String) (query : List (String × String)) :
      Gentle (post (containerPath id "attach") query)
  | start (id : String) (query : List (String × String)) :
      Gentle (post (containerPath id "start") query)
  | wait (id : String) (query : List (String × String)) :
      Gentle (post (containerPath id "wait") query)
  | logs (id : String) (query : List (String × String)) :
      Gentle (get (containerPath id "logs") query)

/-- The requests that stop or remove what goes by a reference. -/
inductive Request.Ends (ref : String) : Request → Prop
  | stop (query : List (String × String)) : Ends ref (post (containerPath ref "stop") query)
  | delete (query : List (String × String)) :
      Ends ref ⟨"DELETE", "/containers/" ++ ref, query, none⟩

/-- Whether a response is no success. -/
def Response.Refuses (x : Response) : Prop :=
  x = .closed ∨ ∃ status body, x = .answered status body ∧ succeeds status = false

/-- What the documentation of an engine says of its containers. -/
structure Host.Documented {σ : Type} (host : Host σ) : Prop where
  /-- Making, starting, attaching, waiting, reading logs and pulling images end no container. -/
  gentle : ∀ {s r x s' c}, host.serves s r x s' → r.Gentle → host.Has c s → host.Has c s'
  /-- What is to be stopped or removed is what goes by the reference. -/
  named : ∀ {s r x s' ref c}, host.serves s r x s' → r.Ends ref → ¬ c.CalledBy ref →
    host.Has c s → host.Has c s'
  /-- The input of a container ends none. -/
  fed : ∀ {s payload y s' c}, host.feeds s payload y s' → host.Has c s → host.Has c s'
  /-- A name is given to one container at a time. -/
  taken : ∀ {s query body x s' c}, host.serves s ⟨"POST", "/containers/create", query, body⟩ x s' →
    ("name", c.name) ∈ query → host.Has c s → x.Refuses

/-! ### A host with an engine as documented -/

instance (c : Standing) : DecidablePred c.CalledBy := fun ref =>
  inferInstanceAs (Decidable (c.name = ref ∨ ref.toList <+: c.id.toList))

/-- What a request names that is to stop or to remove it. -/
def Request.ends? (r : Request) : Option String :=
  let place := r.path.toList.drop "/containers/".toList.length
  match r.method with
  | "DELETE" => some (String.ofList place)
  | "POST" =>
    if "/stop".toList <:+ place then
      some (String.ofList (place.take (place.length - "/stop".toList.length)))
    else none
  | _ => none

def Standing.halt (c : Standing) (ref : String) : Standing :=
  if c.CalledBy ref then { c with running := false } else c

/-- What the engine of the sample answers, and leaves standing. It has no image until it is pulled, and
all names are taken. -/
def sampleAnswer (cs : List Standing) (r : Request) : Response × List Standing :=
  match r.ends? with
  | some ref =>
    if cs.any (·.CalledBy ref) then
      (.answered 204 [],
        if r.method = "DELETE" then cs.filter (¬ ·.CalledBy ref) else cs.map (·.halt ref))
    else (.answered 404 [], cs)
  | none =>
    (.answered (if r.path = "/containers/create" then 409 else if r.method = "GET" then 404 else 200) [],
      cs)

def sampleHost : Host (List Standing) where
  standing := id
  serves cs r x cs' := sampleAnswer cs r = (x, cs')
  feeds cs _ _ cs' := cs' = cs

theorem drop_containerPath (id action : String) :
    (containerPath id action).toList.drop "/containers/".toList.length =
      id.toList ++ ("/" ++ action).toList := by
  have hp : (containerPath id action).toList =
      "/containers/".toList ++ (id.toList ++ ("/" ++ action).toList) := by
    simp only [containerPath, String.toList_append, List.append_assoc]
  rw [hp, List.drop_left]

theorem ends?_containerPath (id action : String) (query : List (String × String)) :
    (post (containerPath id action) query).ends? =
      if "/stop".toList <:+ id.toList ++ ("/" ++ action).toList then
        some (String.ofList ((id.toList ++ ("/" ++ action).toList).take
          ((id.toList ++ ("/" ++ action).toList).length - "/stop".toList.length)))
      else none := by
  rw [← drop_containerPath]
  rfl

theorem not_stop {id action : String}
    (hlen : "/stop".toList.length ≤ ("/" ++ action).toList.length)
    (h : ¬ "/stop".toList <:+ ("/" ++ action).toList) :
    ¬ "/stop".toList <:+ id.toList ++ ("/" ++ action).toList := fun hs =>
  h (List.suffix_of_suffix_length_le hs (List.suffix_append _ _) hlen)

/-- No request is of both sorts: one that ends no container names none that it is to end. -/
theorem Request.Gentle.ends? {r : Request} (h : r.Gentle) : r.ends? = none := by
  cases h with
  | image | logs => rfl
  | pull =>
    have hs : ¬ "/stop".toList <:+ "/images/create".toList.drop "/containers/".toList.length := by
      decide
    exact if_neg hs
  | create =>
    have hs : ¬ "/stop".toList <:+ "/containers/create".toList.drop "/containers/".toList.length := by
      decide
    exact if_neg hs
  | attach id query => rw [ends?_containerPath, if_neg (not_stop (by decide) (by decide))]
  | start id query => rw [ends?_containerPath, if_neg (not_stop (by decide) (by decide))]
  | wait id query => rw [ends?_containerPath, if_neg (not_stop (by decide) (by decide))]

theorem Request.Ends.ends? {r : Request} {ref : String} (h : r.Ends ref) : r.ends? = some ref := by
  cases h with
  | stop query =>
    have hstop : ("/" ++ "stop").toList = "/stop".toList := by decide
    rw [ends?_containerPath, hstop, if_pos (List.suffix_append _ _), List.length_append,
      Nat.add_sub_cancel, List.take_left, String.ofList_toList]
  | delete query =>
    have hp : ("/containers/" ++ ref).toList.drop "/containers/".toList.length = ref.toList := by
      rw [String.toList_append, List.drop_left]
    simp only [Request.ends?, hp, String.ofList_toList]

/-- **The engine of the sample** is as documented. -/
theorem sampleHost_documented : sampleHost.Documented where
  gentle {cs r x cs' c} hs hr hc := by
    simp only [sampleHost, sampleAnswer, hr.ends?, Prod.mk.injEq] at hs
    exact hs.2 ▸ hc
  named {cs r x cs' ref c} hs hr hn hc := by
    simp only [sampleHost, sampleAnswer, hr.ends?] at hs
    refine hc.keeps fun c' (hc' : c' ∈ cs) hid hname => ?_
    have hn' : ¬ c'.CalledBy ref := by rwa [Standing.CalledBy, hid, hname]
    show c' ∈ cs'
    split at hs <;> cases hs
    · split
      · exact List.mem_filter.mpr ⟨hc', decide_eq_true hn'⟩
      · exact List.mem_map.mpr ⟨c', hc', if_neg hn'⟩
    · exact hc'
  fed hs hc := by
    cases hs
    exact hc
  taken {cs query body x cs' c} hs _ _ := by
    have hends := (Request.Gentle.create query body).ends?
    simp only [sampleHost, sampleAnswer, hends] at hs
    cases hs
    exact .inr ⟨409, [], rfl, rfl⟩

/-! ### What an exchange sends -/

/-- Whether all requests that an exchange can send obey a rule, and all results that it can come to. -/
def Exchange.Obeys {α : Type} (P : Request → Prop) (Q : α → Prop) : Exchange α → Prop
  | .done a => Q a
  | .send r next => P r ∧ ∀ x, (next x).Obeys P Q
  | .feed _ next => ∀ y, (next y).Obeys P Q

section Exchanges

variable {α β : Type} {P P' : Request → Prop} {Q Q' : α → Prop} {e : Exchange α}

theorem Exchange.Obeys.mono (h : e.Obeys P Q) (hP : ∀ r, P r → P' r) (hQ : ∀ a, Q a → Q' a) :
    e.Obeys P' Q' := by
  induction e with
  | done a => exact hQ a h
  | send r next ih => exact ⟨hP r h.1, fun x => ih x (h.2 x)⟩
  | feed payload next ih => exact fun y => ih y (h y)

theorem Exchange.Obeys.bind {f : α → Exchange β} {R : β → Prop} (h : e.Obeys P Q)
    (hf : ∀ a, Q a → (f a).Obeys P R) : (e.bind f).Obeys P R := by
  induction e with
  | done a => exact hf a h
  | send r next ih => exact ⟨h.1, fun x => ih x (h.2 x)⟩
  | feed payload next ih => exact fun y => ih y (h y)

theorem Exchange.Obeys.map {f : α → β} {R : β → Prop} (h : e.Obeys P fun a => R (f a)) :
    (e.map f).Obeys P R :=
  h.bind fun _ ha => ha

end Exchanges

/-- Whether a call does not fail for want of an image. -/
def PastPull {α : Type} (result : Outcome α) : Prop := ∀ f, result = .error f → f.isPull = false

section Results

variable {α : Type} {kind : FailureKind}

theorem pastPull_ok (a : α) : PastPull (.ok a) := nofun

theorem pastPull_error (t : Trouble) (subject : String) (h : kind ≠ .pull) :
    PastPull (.error (t.failure kind subject) : Outcome α) := by
  rintro f ⟨⟩
  simpa [Failure.isPull, Trouble.failure] using h

theorem pastPull_mapError (x : Except Trouble α) (subject : String) (h : kind ≠ .pull) :
    PastPull (x.mapError (·.failure kind subject)) := by
  cases x with
  | ok a => exact pastPull_ok a
  | error t => exact pastPull_error t subject h

end Results

/-! ### What the calls send -/

theorem ensureImage_obeys (i : Image) :
    (ensureImage i).Obeys Request.Gentle fun _ => True := by
  refine ⟨.image _ _, fun x => ?_⟩
  dsimp only
  split
  · trivial
  · split
    · exact ⟨.pull _, fun _ => trivial⟩
    · trivial

theorem create_obeys (s : Spec) : (create s).Obeys Request.Gentle PastPull :=
  ⟨.create _ _, fun _ => pastPull_mapError _ _ nofun⟩

theorem startPlain_obeys (id name : String) :
    (startPlain id name).Obeys Request.Gentle PastPull :=
  ⟨.start id [], fun _ => pastPull_mapError _ _ nofun⟩

theorem stream_obeys (name : String) (payload : Bytes) :
    (stream name payload).Obeys Request.Gentle PastPull := by
  intro y
  cases y with
  | none => exact pastPull_ok ()
  | some detail => exact pastPull_error _ _ nofun

theorem pastPull_map {α β : Type} {result : Outcome α} (h : PastPull result) (f : α → β) :
    PastPull (result.map f) := by
  cases result with
  | ok a => exact pastPull_ok _
  | error e =>
    rintro g ⟨⟩
    exact h e rfl

theorem start_obeys (id name : String) (stdin : Option Bytes) :
    (start id name stdin).Obeys Request.Gentle PastPull := by
  cases stdin with
  | none => exact ((startPlain_obeys id name).mono (fun _ h => h) fun _ h => pastPull_map h _).map
  | some payload =>
    refine ⟨.attach id _, fun x => ?_⟩
    dsimp only
    split
    · exact pastPull_error _ _ nofun
    · refine (startPlain_obeys id name).bind fun result hresult => ?_
      cases result with
      | error f =>
        rintro g ⟨⟩
        exact hresult f rfl
      | ok _ =>
        exact ((stream_obeys name payload).mono (fun _ h => h) fun _ h => pastPull_map h _).map

theorem wait_obeys (id name : String) : (wait id name).Obeys Request.Gentle PastPull :=
  ⟨.wait id _, fun _ => pastPull_mapError _ _ nofun⟩

theorem logs_obeys (id name : String) : (logs id name).Obeys Request.Gentle PastPull :=
  ⟨.logs id _, fun _ => pastPull_mapError _ _ nofun⟩

theorem remove_obeys (name : String) : (remove name).Obeys (·.Ends name) PastPull := by
  refine ⟨.delete _, fun x => ?_⟩
  dsimp only
  split
  · exact pastPull_ok ()
  · split
    · exact pastPull_ok ()
    · exact pastPull_error _ _ nofun

theorem stopAndRemove_obeys (grace : Nat) (name : String) :
    (stopAndRemove grace name).Obeys (·.Ends name) PastPull := by
  refine ⟨.stop _, fun x => ?_⟩
  dsimp only
  split
  · exact remove_obeys name
  · split
    · exact pastPull_ok ()
    · exact remove_obeys name

/-- What may be sent for a question: requests that end no container, and for a removal those that end what
goes by the name. -/
def Allowed (ask : Ask) (r : Request) : Prop := r.Gentle ∨ ∃ name, ask = .remove name ∧ r.Ends name

/-- What a question may come to: it fails for want of an image only if it asks for one. -/
def Sensible (ask : Ask) (result : Reply × List Chunk) : Prop :=
  ∀ f, result.1 = .failed f → f.isPull = true → ∃ image, ask = .pull image

theorem Exchange.Obeys.replies {α : Type} {P : Request → Prop} {e : Exchange (Outcome α)} {ask : Ask}
    (h : e.Obeys P PastPull) (hP : ∀ r, P r → Allowed ask r) (f : α → Reply)
    (hf : ∀ a g, f a ≠ .failed g) :
    (e.map fun result => (replyOf f result, [])).Obeys (Allowed ask) (Sensible ask) := by
  refine (h.mono hP fun result hresult => ?_).map
  intro g hg hpull
  cases result with
  | ok a => exact absurd hg (hf a g)
  | error e =>
    cases hg
    rw [hresult _ rfl] at hpull
    cases hpull

/-- **What is sent for a question**, and what that comes to. -/
theorem answer_obeys (grace : Nat) (ask : Ask) :
    (answer grace ask).Obeys (Allowed ask) (Sensible ask) := by
  cases ask with
  | pull i =>
    exact ((ensureImage_obeys i).mono (fun _ h => .inl h) fun _ _ _ _ _ => ⟨i, rfl⟩).map
  | create s => exact (create_obeys s).replies (fun _ h => .inl h) .created (by simp)
  | start id name stdin =>
    refine ((start_obeys id name stdin).mono (fun _ h => .inl h) fun result h => ?_).map
    cases result with
    | ok output => nofun
    | error f =>
      rintro g ⟨⟩ hpull
      rw [h f rfl] at hpull
      cases hpull
  | wait id name => exact (wait_obeys id name).replies (fun _ h => .inl h) .exited (by simp)
  | drain name => nofun
  | logs id name => exact (logs_obeys id name).replies (fun _ h => .inl h) .collected (by simp)
  | remove name =>
    exact (stopAndRemove_obeys grace name).replies (fun _ h => .inr ⟨name, rfl, h⟩)
      (fun () => .done) (by simp)

/-- The request for a container to be made, and what a refusal comes to. -/
theorem answer_create (grace : Nat) (s : Spec) :
    ∃ next, answer grace (.create s) =
      .send ⟨"POST", "/containers/create", [("name", s.name)], some (specDocument s)⟩ next ∧
      ∀ x : Response, x.Refuses → ∃ f, next x = .done (.failed f, []) := by
  refine ⟨_, rfl, fun x hx => ?_⟩
  have hbody : ∃ t, readBody creation.reader x = .error t := by
    rcases hx with rfl | ⟨status, body, rfl, hstatus⟩
    · exact ⟨.closed, rfl⟩
    · refine ⟨refusal status body, ?_⟩
      simp only [readBody, accept, hstatus]
      rfl
  obtain ⟨t, ht⟩ := hbody
  refine ⟨t.failure .create s.name, ?_⟩
  dsimp only
  rw [ht]
  rfl

end RunDispatch.Engine
