/-
# Errands to the engine

A worker asks the engine on its host on behalf of its runs. A run that stops waiting does not take back
what it asked: the engine may go on with it, and what the run asks next may be answered before.

A question that was put to the engine is about the container of its run, which has claimed its marker.
If it is for the removal of this container, then the run fails neither in staging nor for want of its
image, not even later.

Key definitions: `Phase.mayRemove`, `Errand`, `Station`, `Station.Step`, `Hosted`, `Orderly`.
Key theorems: `Move.mayRemove`, `Hosted.orderly`, `Orderly.of_removes`.
-/
import RunDispatch.Proofs.Engine.Host
import RunDispatch.Proofs.Worker.LastWrite

namespace RunDispatch

namespace Container

theorem next_removing (result : Except Failure (String × Int)) (reply : Reply) :
    ((Stage.removing result).next reply).1 = .removing result ∨
      ∃ cleanup, ((Stage.removing result).next reply).1 = .ended (Stage.exit result cleanup) := by
  cases reply with
  | failed f => exact .inr ⟨some f, rfl⟩
  | done => exact .inr ⟨none, rfl⟩
  | created | started | exited | collected => exact .inl rfl

/-- A container that was removed goes wrong if it had gone wrong before. -/
theorem eq_of_exit_error {result : Except Failure (String × Int)} {cleanup : Option Failure}
    {f : Failure} (h : Stage.ended (Stage.exit result cleanup) = .ended (.error f)) :
    result = .error f := by
  cases result with
  | ok waited => cases h
  | error g =>
    cases h
    rfl

/-- What a container that goes wrong was told before it is removed. -/
theorem failed_of_next (spec : Spec) (stdin : Option Bytes) {stage : Stage} {reply : Reply}
    {f : Failure} (h : (stage.next reply).1 = .removing (.error f))
    (hne : (stage.next reply).1 ≠ stage) :
    reply = .failed f ∧ ∃ ask, stage.ask? spec stdin = some ask ∧ ∀ image, ask ≠ .pull image := by
  revert h hne
  fun_cases Stage.next stage reply <;> intro h hne <;> cases h
  case case15 => exact absurd rfl hne
  all_goals exact ⟨rfl, _, rfl, fun image => by simp⟩

end Container

namespace Run

/-! ### Runs that may have a container removed -/

/-- Whether a run fails so before a container is made for it: in staging, or for want of its image. -/
def Failure.isEarly : Failure → Bool
  | .staging _ => true
  | .container f => f.isPull
  | _ => false

/-- Whether a run has come so far that it may have had its container removed. -/
def Phase.mayRemove : Phase → Bool
  | .living (.removing (.error f)) => !f.isPull
  | .living (.removing (.ok _)) => true
  | .reading | .queued _ | .staging _ _ | .living _ => false
  | .compensating f | .ended (.error f) => !f.isEarly
  | .releasing _ _ | .retrying _ | .recording _ | .ended (.ok _) | .broken | .dropped => true

section Removals

variable {setup : Setup} {now : Nat} {s s' : Shared} {r r' : Run} {e : Event}

theorem removing_of_mayRemove {stage : Container.Stage}
    (h : (Phase.living stage).mayRemove = true) :
    ∃ result, stage = .removing result ∧ ∀ f, result = .error f → f.isPull = false := by
  unfold Phase.mayRemove at h
  split at h <;> rename_i hs <;> cases hs
  · rename_i f
    refine ⟨_, rfl, ?_⟩
    rintro g ⟨⟩
    simpa using h
  · exact ⟨_, rfl, nofun⟩
  · cases h

/-- **A run that may have had its container removed** does not fail early any more. -/
theorem Move.mayRemove (h : Move setup now s r e s' r') (hr : r.phase.mayRemove = true) :
    r'.phase.mayRemove = true := by
  have hadmitted : ∀ {e configuration slots}, ¬ Admitted s r e configuration slots := by
    rintro e configuration slots (⟨hs, -⟩ | ⟨hs, -⟩) <;> rw [hs] at hr <;> cases hr
  cases h with
  | stays | notes => exact hr
  | unread hs | stopsEarly hs | waits hs | stopsWaiting _ hs | prepares _ _ _ hs | stages _ _ _ _ _ hs
  | launches _ _ _ hs | cannotStage _ _ hs =>
    rw [hs] at hr
    cases hr
  | finds _ _ _ ha | claims _ _ _ ha => exact absurd ha hadmitted
  | lives stage next hs reply hn hne hl =>
    rw [hs] at hr
    obtain ⟨result, rfl, -⟩ := removing_of_mayRemove hr
    rcases Container.next_removing result reply with hx | ⟨_, hx⟩
    · exact absurd (hn.symm.trans hx) hne
    · exact absurd (hn.symm.trans hx) (hl _)
  | fails stage hs reply f hn hf => simp [Phase.mayRemove, Failure.isEarly, hf]
  | lacksImage stage hs reply f hn hf =>
    rw [hs] at hr
    obtain ⟨result, rfl, hresult⟩ := removing_of_mayRemove hr
    rcases Container.next_removing result reply with hx | ⟨_, hx⟩ <;> rw [hn] at hx
    · cases hx
    · rw [hresult f (Container.eq_of_exit_error hx.symm)] at hf
      cases hf
  | exits | releases | retries | finishes | retried => rfl
  | records finding hs result => cases result <;> rfl
  | clears f hs =>
    rw [hs] at hr
    exact hr
  | stops | timesOut => rfl
  | breaksWaiting _ _ he | breaksInSlot _ _ he | breaks _ _ he =>
    rcases eq_of_fatal he with rfl | rfl <;> rfl

/-- A run that asks for the removal of its container may do so, unless it goes wrong for want of an
image. -/
theorem Account.mayRemove {q : Request} {phase : Phase} {log : List Deed}
    (h : Account setup q phase log) {name : String}
    (ha : (inPhase q phase).call? setup = some (.container (.remove name)))
    (hp : ∀ f, phase = .living (.removing (.error f)) → f.isPull = false) :
    phase.mayRemove = true := by
  cases phase with
  | living stage =>
    obtain ⟨ask, hask, hremove⟩ := Option.map_eq_some_iff.mp ha
    cases hremove
    cases stage <;> cases hask
    rename_i result
    cases result with
    | ok waited => rfl
    | error f => simp [Phase.mayRemove, hp f rfl]
  | retrying => rfl
  | compensating f =>
    rcases h.compensated with ⟨g, rfl, hg⟩ | rfl | rfl
    · simp [Phase.mayRemove, Failure.isEarly, hg]
    · rfl
    · rfl
  | _ => cases ha

theorem called_mem_deeds {c : Call} (hp : r'.phase ≠ r.phase) (hc : r.call? setup = some c) :
    .called c e ∈ r.deeds setup e r' := by
  rw [deeds, if_neg hp, lastCall, hc]
  exact List.mem_append_left _ (List.mem_singleton_self _)

/-- A run that goes wrong, and comes to the removal of its container, was told so. -/
theorem Move.removing (h : Move setup now s r e s' r') {f : Container.Failure}
    (hp : r'.phase = .living (.removing (.error f))) :
    r.phase = r'.phase ∨ ∃ ask, (∀ image, ask ≠ .pull image) ∧
      .called (.container ask) (.container (.failed f)) ∈ r.deeds setup e r' := by
  cases h with
  | stays | notes => exact .inl rfl
  | lives stage next hs reply hn hne hl =>
    cases hp
    obtain ⟨rfl, ask, hask, hpull⟩ := Container.failed_of_next (specFor r.request setup.layout)
      r.request.records hn (hn ▸ hne)
    refine .inr ⟨ask, hpull, called_mem_deeds (fun he => hne ?_) ?_⟩
    · exact Phase.living.inj (he.trans hs)
    · unfold call?
      simp only [hs, hask, Option.map_some]
  | records finding hs result => cases result <;> cases hp
  | breaksWaiting _ _ he | breaksInSlot _ _ he | breaks _ _ he =>
    rcases eq_of_fatal he with rfl | rfl <;> cases hp
  | _ => cases hp

end Removals
end Run

namespace Worker

open Engine

/-! ### A worker on a host with an engine -/

/-- The question to the engine whose answer a run waits for. -/
def asks? (w : Worker) (number : Nat) : Option Container.Ask :=
  match (w.run? number).bind (·.call? w.setup) with
  | some (.container ask) => some ask
  | _ => none

/-- What a run is told by the engine. -/
def Event.reply? : Event → Option (Nat × Container.Reply)
  | .run number (.container reply) => some (number, reply)
  | _ => none

/-- A question that a run has put to the engine, and what is left of the exchange. -/
structure Errand where
  run : Nat
  ask : Container.Ask
  left : Exchange (Container.Reply × List Container.Chunk)

/-- What came of an errand. -/
def Errand.reply? (e : Errand) : Option Container.Reply :=
  match e.left with
  | .done (reply, _) => some reply
  | _ => none

theorem Errand.left_of_reply? {e : Errand} {reply : Container.Reply} (h : e.reply? = some reply) :
    ∃ shown, e.left = .done (reply, shown) := by
  unfold reply? at h
  split at h
  · rename_i shown hl
    cases h
    exact ⟨shown, hl⟩
  · cases h

/-- A worker on a host: what the runs have done, the questions that were put to the engine, whether
their runs still wait or not, and the engine. -/
structure Station (σ : Type) where
  log : List Entry
  worker : Worker
  errands : List Errand
  engine : σ

section Stations

variable {σ : Type}

namespace Station

def opening (w : Worker) (s : σ) : Station σ := ⟨[], w, [], s⟩

def heed (d : Station σ) (now : Nat) (e : Event) : Station σ :=
  { d with log := d.log ++ d.worker.deeds now e, worker := d.worker.heed now e }

/-- After a run has put its question to the engine, which stops containers within the worker's time. -/
def ask (d : Station σ) (number : Nat) (ask : Container.Ask) : Station σ :=
  { d with errands := d.errands ++ [⟨number, ask, answer (d.worker.setup.stopGrace / 1000) ask⟩] }

/-- After the engine has gone on with an errand. -/
def goOn (d : Station σ) (k : Nat) (e : Errand) (left : Exchange (Container.Reply × List Container.Chunk))
    (s : σ) : Station σ :=
  { d with errands := d.errands.set k { e with left }, engine := s }

/-- Whether the question that a run waits for was put to the engine, and a reply came of it. -/
def Replied (d : Station σ) (number : Nat) (reply : Container.Reply) : Prop :=
  ∃ e ∈ d.errands, e.run = number ∧ d.worker.asks? number = some e.ask ∧ e.reply? = some reply

instance (d : Station σ) (number : Nat) (reply : Container.Reply) : Decidable (d.Replied number reply) :=
  inferInstanceAs (Decidable (∃ e ∈ d.errands, _))

/-- What can become of a worker on a host, while others do what they may to the engine: something happens
to the worker, which is told no reply that the engine did not give; a run puts its question to the
engine; the engine goes on with an errand; or others act. -/
inductive Step (host : Host σ) (others : σ → σ → Prop) : Nat → Station σ → Nat → Station σ → Prop
  | happens {t t' : Nat} (ht : t ≤ t') (d : Station σ) (e : Event)
      (hr : ∀ x ∈ e.reply?, d.Replied x.1 x.2) : Step host others t d t' (d.heed t' e)
  | asks (t : Nat) (d : Station σ) {number : Nat} {ask : Container.Ask}
      (ha : d.worker.asks? number = some ask) : Step host others t d t (d.ask number ask)
  | serves (t : Nat) (d : Station σ) {k : Nat} {e : Errand} {r : Engine.Request}
      {next : Response → Exchange (Container.Reply × List Container.Chunk)} {x : Response} {s : σ}
      (he : d.errands[k]? = some e) (hl : e.left = .send r next)
      (hs : host.serves d.engine r x s) : Step host others t d t (d.goOn k e (next x) s)
  | feeds (t : Nat) (d : Station σ) {k : Nat} {e : Errand} {payload : Bytes}
      {next : Option String → Exchange (Container.Reply × List Container.Chunk)} {y : Option String}
      {s : σ} (he : d.errands[k]? = some e) (hl : e.left = .feed payload next)
      (hs : host.feeds d.engine payload y s) : Step host others t d t (d.goOn k e (next y) s)
  | meanwhile (t : Nat) (d : Station σ) {s : σ} (hs : others d.engine s) :
      Step host others t d t { d with engine := s }

end Station

/-- What can become of a worker on a host in the course of time. -/
inductive Hosted (host : Host σ) (others : σ → σ → Prop) (t₀ : Nat) (d₀ : Station σ) :
    Nat → Station σ → Prop
  | start : Hosted host others t₀ d₀ t₀ d₀
  | step {t t' : Nat} {d d' : Station σ} (h : Hosted host others t₀ d₀ t d)
      (hs : Station.Step host others t d t' d') : Hosted host others t₀ d₀ t' d'

variable {host : Host σ} {others : σ → σ → Prop} {t₀ t₁ t t' : Nat} {d₀ d₁ d d' : Station σ}

theorem Hosted.trans (h₁ : Hosted host others t₀ d₀ t₁ d₁) (h : Hosted host others t₁ d₁ t d) :
    Hosted host others t₀ d₀ t d := by
  induction h with
  | start => exact h₁
  | step _ hs ih => exact ih.step hs

theorem Hosted.history {w₀ : Worker} {s₀ : σ} (h : Hosted host others t₀ (.opening w₀ s₀) t d) :
    History (fun _ _ => True) w₀ t d.log d.worker := by
  induction h with
  | start => exact .start _
  | step _ hs ih =>
    cases hs with
    | happens ht _ e => exact ih.step ht e trivial
    | asks | serves | feeds | meanwhile => exact ih

theorem Hosted.log_grows (h : Hosted host others t₀ d₀ t d) : d₀.log <+: d.log := by
  induction h with
  | start => exact List.prefix_rfl
  | step _ hs ih =>
    cases hs with
    | happens => exact ih.trans (List.prefix_append _ _)
    | asks | serves | feeds | meanwhile => exact ih

theorem asks?_eq_some {w : Worker} {number : Nat} {ask : Container.Ask} :
    w.asks? number = some ask ↔
      ∃ r, w.run? number = some r ∧ r.call? w.setup = some (.container ask) := by
  unfold asks?
  rw [← Option.bind_eq_some_iff]
  split
  · rename_i hc
    simp [hc]
  · rename_i hc
    simpa using hc ask

/-- A run after something has happened to the worker is as it was, has made a move, or is new. -/
theorem History.follows {P : Nat → Worker → Prop} {w₀ w : Worker} {now now' : Nat} {log : List Entry}
    (h : History P w₀ now log w) (h0 : w₀.tasks = []) {e : Event} {i : Nat} {r' : Run}
    (hr' : (w.heed now' e).run? i = some r') :
    (w.run? i = none ∧ r'.phase = .reading) ∨
      ∃ r, w.run? i = some r ∧ r'.request = r.request ∧ (r'.phase = r.phase ∨
        ∃ e' s, Run.Move w.setup now' w.shared r e' s r' ∧
          deedsOf i (w.deeds now' e) = r.deeds w.setup e' r') := by
  have hc := heed_change w now' e
  generalize w.deeds now' e = entries at hc ⊢
  generalize w.heed now' e = w' at hc hr'
  cases hc with
  | acts number t e ht _ _ hw =>
    rw [hw i] at hr'
    by_cases hi : i = number
    · subst hi
      rw [if_pos rfl] at hr'
      cases hr'
      have hm := h.move h0 ht now' e
      refine .inr ⟨t, ht, hm.same.2, .inr ⟨_, _, hm, ?_⟩⟩
      rw [deedsOf_map, if_pos rfl]
    · rw [if_neg hi] at hr'
      exact .inr ⟨r', hr', rfl, .inl rfl⟩
  | rests hw =>
    have hwi := hw i
    rw [hr'] at hwi
    generalize w.run? i = before at hwi ⊢
    cases hwi with
    | stays => exact .inr ⟨r', rfl, rfl, .inl rfl⟩
    | told r => exact .inr ⟨r, rfl, rfl, .inl rfl⟩
    | spawned => exact .inl ⟨rfl, rfl⟩

/-! ### What is known of the errands -/

/-- What is known of a question that was put to the engine: what it sends and comes to, and that its run
has claimed its marker, and asked about its own container. -/
structure Errand.Proper (log : List Entry) (w : Worker) (e : Errand) : Prop where
  obeys : e.left.Obeys (Allowed e.ask) (Sensible e.ask)
  claimed : .claim true ∈ deedsOf e.run log
  own : ∃ r, w.run? e.run = some r ∧ (∀ name, e.ask.subject? = some name → name = r.name) ∧
    ∀ name, e.ask = .remove name → r.phase.mayRemove = true

/-- What holds of a worker on a host at all times. -/
structure Orderly (d : Station σ) : Prop where
  errands : ∀ e ∈ d.errands, e.Proper d.log d.worker
  /-- The runs were told what the questions can come to. -/
  told : ∀ {i ask reply}, .called (.container ask) (.container reply) ∈ deedsOf i d.log →
    ∃ shown, Sensible ask (reply, shown)
  /-- No container is removed for want of an image. -/
  removing : ∀ {i r f}, d.worker.run? i = some r → r.phase = .living (.removing (.error f)) →
    f.isPull = false

/-- What ended the waiting for an answer of the engine is what came of an errand. -/
theorem Station.replied_of_called {e : Event} {t' i : Nat} {ask : Container.Ask} {reply : Container.Reply}
    (hr : ∀ x ∈ e.reply?, d.Replied x.1 x.2)
    (h : .called (.container ask) (.container reply) ∈ deedsOf i (d.worker.deeds t' e)) :
    ∃ x ∈ d.errands, x.run = i ∧ x.ask = ask ∧ ∃ shown, x.left = .done (reply, shown) := by
  obtain ⟨r, e', rfl, hri, hc, he⟩ := happened_of_called h
  obtain rfl := eq_of_heeded he nofun
  obtain ⟨x, hx, hi, hask, hl⟩ := hr (i, reply) rfl
  rw [asks?_eq_some.mpr ⟨r, hri, hc⟩] at hask
  exact ⟨x, hx, hi, (Option.some.inj hask).symm, x.left_of_reply? hl⟩

section Start

variable {w₀ : Worker} {s₀ : σ}

/-- What the runs are told is what the questions can come to. -/
theorem Orderly.told_heed (ho : Orderly d) {e : Event} (hr : ∀ x ∈ e.reply?, d.Replied x.1 x.2)
    {i : Nat} {ask : Container.Ask} {reply : Container.Reply}
    (hm : .called (.container ask) (.container reply) ∈ deedsOf i (d.heed t' e).log) :
    ∃ shown, Sensible ask (reply, shown) := by
  rw [Station.heed, deedsOf_append] at hm
  rcases List.mem_append.mp hm with hm | hm
  · exact ho.told hm
  · obtain ⟨x, hx, -, rfl, shown, hl⟩ := Station.replied_of_called hr hm
    have hobeys := (ho.errands x hx).obeys
    rw [hl] at hobeys
    exact ⟨shown, hobeys⟩

/-- An errand stays in order whatever happens to the worker. -/
theorem Errand.Proper.heed {x : Errand} (hx : x.Proper d.log d.worker)
    (h : Hosted host others t₀ (.opening w₀ s₀) t d) (h0 : w₀.tasks = []) (t' : Nat) (e : Event) :
    x.Proper (d.heed t' e).log (d.heed t' e).worker := by
  obtain ⟨hobeys, hclaimed, r, hr, hown, hremove⟩ := hx
  obtain ⟨r', hr', hq⟩ :=
    (heed_change d.worker t' e).keeps (fun _ _ hr => h.history.sound h0 hr) hr
  refine ⟨hobeys, ?_, r', hr', fun name hn => ?_, fun name hn => ?_⟩
  · rw [Station.heed, deedsOf_append]
    exact List.mem_append_left _ hclaimed
  · calc name = r.name := hown name hn
      _ = r'.name := congrArg Request.containerName hq.symm
  · rcases h.history.follows h0 hr' with ⟨hnone, -⟩ | ⟨t, ht, -, hmove⟩
    · rw [hr] at hnone
      cases hnone
    · obtain rfl : r = t := Option.some.inj (hr.symm.trans ht)
      rcases hmove with hp | ⟨_, _, hm, -⟩
      · rw [hp]
        exact hremove name hn
      · exact hm.mayRemove (hremove name hn)

/-- A run that comes to the removal of its container does not do so for want of an image. -/
theorem Orderly.removing_heed (ho : Orderly d) (h : Hosted host others t₀ (.opening w₀ s₀) t d)
    (h0 : w₀.tasks = []) {e : Event} (hr : ∀ x ∈ e.reply?, d.Replied x.1 x.2) {i : Nat} {r' : Run}
    {f : Container.Failure} (hr' : (d.worker.heed t' e).run? i = some r')
    (hp : r'.phase = .living (.removing (.error f))) : f.isPull = false := by
  rcases h.history.follows h0 hr' with ⟨-, hreading⟩ | ⟨r, hri, -, hmove⟩
  · rw [hp] at hreading
    cases hreading
  · rcases hmove with hs | ⟨_, _, hm, hdeeds⟩
    · exact ho.removing hri (hs ▸ hp)
    · rcases hm.removing hp with hs | ⟨ask, hpull, hmem⟩
      · exact ho.removing hri (hs.trans hp)
      · have hlog : .called (.container ask) (.container (.failed f)) ∈
            deedsOf i (d.heed t' e).log := by
          rw [Station.heed, deedsOf_append, hdeeds]
          exact List.mem_append_right _ hmem
        obtain ⟨shown, hsensible⟩ := ho.told_heed hr hlog
        refine Bool.eq_false_iff.mpr fun hf => ?_
        obtain ⟨image, himage⟩ := hsensible f rfl hf
        exact hpull image himage

theorem Orderly.happens (ho : Orderly d) (h : Hosted host others t₀ (.opening w₀ s₀) t d)
    (h0 : w₀.tasks = []) {e : Event} (hr : ∀ x ∈ e.reply?, d.Replied x.1 x.2) :
    Orderly (d.heed t' e) where
  errands x hx := (ho.errands x hx).heed h h0 t' e
  told hm := ho.told_heed hr hm
  removing hr' hp := ho.removing_heed h h0 hr hr' hp

/-- A question that a run puts to the engine is in order. -/
theorem Orderly.asks (ho : Orderly d) (h : Hosted host others t₀ (.opening w₀ s₀) t d)
    (h0 : w₀.tasks = []) {i : Nat} {ask : Container.Ask} (ha : d.worker.asks? i = some ask) :
    Orderly (d.ask i ask) := by
  obtain ⟨r, hr, hc⟩ := asks?_eq_some.mp ha
  obtain ⟨_, hco⟩ := h.history.course h0 hr
  have hc' : (Run.inPhase r.request r.phase).call? w₀.setup = some (.container ask) := by
    rw [← hc, h.history.setup_eq]
    rfl
  have hown := (asks_own (h.history.sound h0 hr) hc).2
  refine ⟨fun x hx => ?_, ho.told, ho.removing⟩
  rcases List.mem_append.mp hx with hx | hx
  · exact ho.errands x hx
  · obtain rfl := List.mem_singleton.mp hx
    refine ⟨answer_obeys _ _, hco.account.claimed_of_asks hc', r, hr, hown, fun name hn => ?_⟩
    obtain rfl : ask = .remove name := hn
    exact hco.account.mayRemove hc' fun f hp => ho.removing hr hp

theorem Orderly.goOn (ho : Orderly d) {k : Nat} {e : Errand} (he : d.errands[k]? = some e)
    {left : Exchange (Container.Reply × List Container.Chunk)} {s : σ}
    (hl : left.Obeys (Allowed e.ask) (Sensible e.ask)) : Orderly (d.goOn k e left s) := by
  refine ⟨fun x hx => ?_, ho.told, ho.removing⟩
  have hp := ho.errands e (List.mem_of_getElem? he)
  rcases List.mem_or_eq_of_mem_set hx with hx | rfl
  · exact ho.errands x hx
  · exact ⟨hl, hp.claimed, hp.own⟩

theorem Orderly.obeys (ho : Orderly d) {k : Nat} {e : Errand} (he : d.errands[k]? = some e)
    {x : Exchange (Container.Reply × List Container.Chunk)} (hl : e.left = x) :
    x.Obeys (Allowed e.ask) (Sensible e.ask) :=
  hl ▸ (ho.errands e (List.mem_of_getElem? he)).obeys

/-- **The errands are in order** at all times. -/
theorem Hosted.orderly (h : Hosted host others t₀ (.opening w₀ s₀) t d) (h0 : w₀.tasks = []) :
    Orderly d := by
  induction h with
  | start =>
    refine ⟨fun x hx => ?_, fun hm => ?_, fun {i r f} hr => ?_⟩
    · cases hx
    · cases hm
    · have hn : w₀.run? i = none := by simp [run?, h0]
      rw [Station.opening, hn] at hr
      cases hr
  | step h hs ho =>
    cases hs with
    | happens _ _ _ hr => exact ho.happens h h0 hr
    | asks _ ha => exact ho.asks h h0 ha
    | serves _ he hl => exact ho.goOn he ((ho.obeys he hl).2 _)
    | feeds _ he hl => exact ho.goOn he (ho.obeys he hl _)
    | meanwhile => exact ⟨ho.errands, ho.told, ho.removing⟩

/-! ### Questions that were put to the engine -/

def Station.asked (d : Station σ) : List (Nat × Container.Ask) := d.errands.map fun e => (e.run, e.ask)

theorem Station.asked_goOn {k : Nat} {e : Errand} (he : d.errands[k]? = some e)
    (left : Exchange (Container.Reply × List Container.Chunk)) (s : σ) :
    (d.goOn k e left s).asked = d.asked := by
  refine List.ext_getElem? fun j => ?_
  simp only [asked, goOn, List.getElem?_map, List.getElem?_set]
  split
  · rename_i hj
    rw [← hj, if_pos (List.getElem?_eq_some_iff.mp he).1, he]
    rfl
  · rfl

theorem Station.Step.asked_grows (h : Station.Step host others t d t' d') : d.asked <+: d'.asked := by
  cases h with
  | happens | meanwhile => exact List.prefix_rfl
  | asks =>
    simp only [Station.asked, Station.ask, List.map_append]
    exact List.prefix_append _ _
  | serves _ he | feeds _ he =>
    exact (Station.asked_goOn he _ _).symm ▸ List.prefix_rfl

/-- **What is known of a run that asked for a removal**: it has claimed its marker, it asked for its own
container, and it does not fail in staging or for want of its image. -/
theorem Orderly.of_removes (ho : Orderly d) {i : Nat} {name : String}
    (ha : (i, .remove name) ∈ d.asked) : .claim true ∈ deedsOf i d.log ∧
      ∃ r, d.worker.run? i = some r ∧ r.name = name ∧
        ∀ f, r.phase = .ended (.error f) → f.isEarly = false := by
  obtain ⟨e, he, heq⟩ := List.mem_map.mp ha
  obtain ⟨rfl, hask⟩ := Prod.mk.inj heq
  obtain ⟨-, hclaimed, r, hr, hown, hremove⟩ := ho.errands e he
  have hname : name = r.name := hown name (by rw [hask]; rfl)
  have hphase := hremove name hask
  refine ⟨hclaimed, r, hr, hname.symm, fun f hf => ?_⟩
  rw [hf] at hphase
  simpa [Run.Phase.mayRemove] using hphase

end Start
end Stations
end Worker
end RunDispatch
