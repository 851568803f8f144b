/-
# What goes into the terminal of a container

A write container reads its records from a terminal, which acts on the octets below 0x20 and on 0x7F, its
erase octet, instead of passing them on. While a container lives its input is given at most one stream: a line
for each record, and one end of transmission after them.

In the text of a record no octet is below 0x20, whatever its strings and names hold. The erase octet is not
kept out in the same way. A text holds it exactly if one of its strings or names holds U+007F, so these are
the records that a terminal alters (`neutral_iff`, `sample_erased`).

Key definitions: `fedIn`, `Exchange.Mute`, `Neutral`, `TypedIn`.
Key theorems: `Started.fedIn`, `fedIn_liveFrom`, `eraseOctet_mem_iff`, `neutral_iff`, `typed_in`.
-/
import RunDispatch.Layout
import RunDispatch.Proofs.Engine.Contract
import RunDispatch.Proofs.Payload

namespace RunDispatch.Engine

open Container

/-! ### What is given for input -/

/-- The octets that were given for input. -/
def fedIn (passes : List Pass) : List Bytes :=
  passes.filterMap fun
    | .fed payload _ => some payload
    | .asked _ _ => none

theorem fedIn_append (a b : List Pass) : fedIn (a ++ b) = fedIn a ++ fedIn b :=
  List.filterMap_append

/-- An exchange that gives no input, whatever it is answered. -/
def Exchange.Mute {α : Type} : Exchange α → Prop
  | .done _ => True
  | .send _ next => ∀ x, (next x).Mute
  | .feed _ _ => False

section Exchanges

variable {α β σ : Type} {e : Exchange α}

theorem Exchange.Mute.map (h : e.Mute) (f : α → β) : (e.map f).Mute := by
  induction e with
  | done a => trivial
  | send r next ih => exact fun x => ih x (h x)
  | feed payload next => exact h.elim

theorem fedIn_of_mute (h : e.Mute) (engine : Server σ) (s : σ) : fedIn (e.against engine s).2.1 = [] := by
  induction e generalizing s with
  | done a => rfl
  | send r next ih => exact ih _ (h _) _
  | feed payload next => exact h.elim

end Exchanges

theorem mute_ensureImage (i : Image) : (ensureImage i).Mute := by
  intro x
  dsimp only
  split
  · trivial
  · split
    · exact fun _ => trivial
    · trivial

theorem mute_remove (name : String) : (remove name).Mute := by
  intro x
  dsimp only
  split
  · trivial
  · split <;> trivial

theorem mute_stopAndRemove (grace : Nat) (name : String) : (stopAndRemove grace name).Mute := by
  intro x
  dsimp only
  split
  · exact mute_remove name
  · split
    · trivial
    · exact mute_remove name

theorem mute_answer (grace : Nat) {ask : Ask} (h : ∀ id name stdin, ask ≠ .start id name stdin) :
    (answer grace ask).Mute := by
  cases ask with
  | start id name stdin => exact absurd rfl (h id name stdin)
  | pull i => exact (mute_ensureImage i).map _
  | remove name => exact (mute_stopAndRemove grace name).map _
  | drain name => trivial
  | create | wait | logs => exact fun _ => trivial

theorem Started.fedIn {id name : String} {stdin : Option Bytes} {passes : List Pass}
    {r : Outcome (Option (List Chunk))} (h : Started id name stdin passes r) :
    (fedIn passes = [] ∨ fedIn passes = stdin.toList.map terminated) ∧
      (∀ output, r = .ok output → fedIn passes = stdin.toList.map terminated) := by
  cases h with
  | plain => exact ⟨.inl rfl, fun _ _ => rfl⟩
  | refused | unattached | unstarted => exact ⟨.inl rfl, nofun⟩
  | fed => exact ⟨.inr rfl, fun _ _ => rfl⟩
  | unwritten => exact ⟨.inr rfl, nofun⟩

section Lives

variable {σ : Type} (engine : Server σ) (grace : Nat) (spec : Spec) (stdin : Option Bytes)

theorem answer_start (id name : String) (s : σ) :
    ∃ s' passes reply output,
      (answer grace (.start id name stdin)).against engine s = (s', passes, reply, output) ∧
      (fedIn passes = [] ∨ fedIn passes = stdin.toList.map terminated) ∧
      ((∃ f, reply = .failed f) ∨
        ∃ attached, reply = .started attached ∧ fedIn passes = stdin.toList.map terminated) := by
  have hstarted := start_started engine s id name stdin
  rw [answer, Exchange.against_map]
  generalize (start id name stdin).against engine s = result at hstarted ⊢
  obtain ⟨s', passes, r⟩ := result
  obtain ⟨heither, hok⟩ := hstarted.fedIn
  cases r with
  | ok output => exact ⟨_, _, _, _, rfl, heither, .inr ⟨_, rfl, hok output rfl⟩⟩
  | error f => exact ⟨_, _, _, _, rfl, heither, .inl ⟨f, rfl⟩⟩

/-- Whether a container was started, or is not going to be. -/
def PastStart : Stage → Prop
  | .pulling | .creating | .starting _ => False
  | _ => True

theorem PastStart.next {stage : Stage} (h : PastStart stage) (reply : Reply) :
    PastStart (stage.next reply).1 := by
  cases stage with
  | pulling | creating | starting => exact h.elim
  | waiting id attached => cases attached <;> cases reply <;> trivial
  | draining | collecting | removing | ended => cases reply <;> trivial

theorem fedIn_liveFrom_succ {stage : Stage} {ask : Ask} (ha : stage.ask? spec stdin = some ask) (fuel : Nat)
    (shown : List Chunk) {s s' : σ} {passes : List Pass} {reply : Reply} {output : List Chunk}
    (hagainst : (answer grace ask).against engine s = (s', passes, reply, output)) :
    fedIn ((liveFrom grace spec stdin (fuel + 1) stage shown).against engine s).2.1 =
      fedIn passes ++ fedIn ((liveFrom grace spec stdin fuel (stage.next reply).1
        (shown ++ output ++ (stage.next reply).2)).against engine s').2.1 := by
  have hlive : liveFrom grace spec stdin (fuel + 1) stage shown =
      (answer grace ask).bind fun r =>
        liveFrom grace spec stdin fuel (stage.next r.1).1 (shown ++ r.2 ++ (stage.next r.1).2) := by
    cases stage <;> cases ha <;> rfl
  rw [hlive, Exchange.against_bind, hagainst]
  exact fedIn_append _ _

theorem fedIn_liveFrom_of_mute (stage : Stage) {ask : Ask} (ha : stage.ask? spec stdin = some ask)
    (hne : ∀ id name payload, ask ≠ .start id name payload) (fuel : Nat) (shown : List Chunk) (s : σ) :
    ∃ reply shown' s', fedIn ((liveFrom grace spec stdin (fuel + 1) stage shown).against engine s).2.1 =
      fedIn ((liveFrom grace spec stdin fuel (stage.next reply).1 shown').against engine s').2.1 := by
  have hmute := fedIn_of_mute (mute_answer grace hne) engine s
  rcases hagainst : (answer grace ask).against engine s with ⟨s', passes, reply, output⟩
  rw [hagainst] at hmute
  rw [fedIn_liveFrom_succ engine grace spec stdin ha fuel shown hagainst, hmute, List.nil_append]
  exact ⟨_, _, _, rfl⟩

/-- Nothing is given after the start. -/
theorem fedIn_liveFrom_of_pastStart (fuel : Nat) {stage : Stage} (h : PastStart stage)
    (shown : List Chunk) (s : σ) :
    fedIn ((liveFrom grace spec stdin fuel stage shown).against engine s).2.1 = [] := by
  induction fuel generalizing stage shown s with
  | zero => rfl
  | succ fuel ih =>
    have hask : ∀ ask, stage.ask? spec stdin = some ask → (∀ id name payload, ask ≠ .start id name payload) →
        fedIn ((liveFrom grace spec stdin (fuel + 1) stage shown).against engine s).2.1 = [] := by
      intro ask ha hne
      obtain ⟨reply, shown', s', heq⟩ := fedIn_liveFrom_of_mute engine grace spec stdin stage ha hne fuel shown s
      rw [heq, ih (h.next reply)]
    cases stage with
    | pulling | creating | starting => exact h.elim
    | waiting | draining | collecting | removing => exact hask _ rfl nofun
    | ended => rfl

/-- **What is given in a life from a stage on**: nothing, or the terminated payload and nothing else. -/
theorem fedIn_liveFrom (fuel : Nat) (stage : Stage) (shown : List Chunk) (s : σ) :
    fedIn ((liveFrom grace spec stdin fuel stage shown).against engine s).2.1 = [] ∨
      fedIn ((liveFrom grace spec stdin fuel stage shown).against engine s).2.1 =
        (Stage.stdinFor spec stdin).toList.map terminated := by
  induction fuel generalizing stage shown s with
  | zero => exact .inl rfl
  | succ fuel ih =>
    cases stage with
    | pulling =>
      obtain ⟨reply, shown', s', heq⟩ :=
        fedIn_liveFrom_of_mute engine grace spec stdin .pulling rfl nofun fuel shown s
      rw [heq]
      exact ih _ _ _
    | creating =>
      obtain ⟨reply, shown', s', heq⟩ :=
        fedIn_liveFrom_of_mute engine grace spec stdin .creating rfl nofun fuel shown s
      rw [heq]
      exact ih _ _ _
    | starting id =>
      obtain ⟨s', passes, reply, output, hagainst, heither, hreply⟩ :=
        answer_start engine grace (Stage.stdinFor spec stdin) id spec.name s
      -- The container runs or is to be removed after either reply, and is not started again.
      have hpast : PastStart (Stage.next (.starting id) reply).1 := by
        rcases hreply with ⟨f, rfl⟩ | ⟨attached, rfl, -⟩ <;> trivial
      have hlater := fedIn_liveFrom_of_pastStart engine grace spec stdin fuel hpast
        (shown ++ output ++ (Stage.next (.starting id) reply).2) s'
      rwa [fedIn_liveFrom_succ engine grace spec stdin rfl fuel shown hagainst, hlater, List.append_nil]
    | waiting | draining | collecting | removing | ended =>
      exact .inl (fedIn_liveFrom_of_pastStart engine grace spec stdin (fuel + 1) (by trivial) shown s)

end Lives

/-! ### What a terminal acts on -/

def eraseOctet : UInt8 := 0x7F

/-- Whether a terminal finds nothing to act on in a stream but the newlines that end its lines and one end of
transmission after them. -/
def Neutral (stream : Bytes) : Prop :=
  ∃ lines : List Bytes, stream = lines.flatMap (· ++ [newline]) ++ [endOfTransmission] ∧
    ∀ line ∈ lines, ∀ b ∈ line, 0x20 ≤ b.toNat ∧ b ≠ eraseOctet

theorem Neutral.eraseOctet_notMem {stream : Bytes} (h : Neutral stream) : eraseOctet ∉ stream := by
  obtain ⟨lines, rfl, hlines⟩ := h
  intro hmem
  rcases List.mem_append.mp hmem with hmem | hmem
  · obtain ⟨line, hline, hmem⟩ := List.mem_flatMap.mp hmem
    rcases List.mem_append.mp hmem with hmem | hmem
    · exact (hlines line hline _ hmem).2 rfl
    · exact absurd (List.mem_singleton.mp hmem) (by decide)
  · exact absurd (List.mem_singleton.mp hmem) (by decide)

/-- The erase octet is in a text exactly if U+007F is. -/
theorem eraseOctet_mem_utf8Chars {cs : List Char} :
    eraseOctet ∈ Text.utf8Chars cs ↔ '\x7f' ∈ cs := by
  constructor
  · intro h
    obtain ⟨c, hc, hb⟩ := List.mem_flatMap.mp h
    have hcode : c.toNat = ('\x7f' : Char).toNat := Text.eq_of_mem_utf8EncodeChar hb (by decide)
    have hchar : c = '\x7f' := by rw [← Char.ofNat_toNat c, hcode]; rfl
    rwa [← hchar]
  · intro h
    exact List.mem_flatMap.mpr ⟨_, h, List.mem_singleton_self _⟩

/-- **The erase octet is in the text of a value** exactly if U+007F is in one of its strings or names. -/
theorem eraseOctet_mem_iff (v : Json.Value) :
    eraseOctet ∈ Text.utf8Chars v.write ↔ ∃ s ∈ v.texts, '\x7f' ∈ s.toList := by
  rw [eraseOctet_mem_utf8Chars, Json.mem_write_iff v (by decide)]

/-- **Which streams of records are neutral**: those of records without U+007F. -/
theorem neutral_iff (records : List Json.Value) :
    Neutral (terminated (encodeRecords records)) ↔
      ∀ v ∈ records, ∀ s ∈ v.texts, '\x7f' ∉ s.toList := by
  rw [terminated_encodeRecords]
  constructor
  · intro h v hv s hs hc
    refine h.eraseOctet_notMem (List.mem_append_left _ (List.mem_flatMap.mpr ⟨v, hv, ?_⟩))
    exact List.mem_append_left _ ((eraseOctet_mem_iff v).mpr ⟨s, hs, hc⟩)
  · intro h
    refine ⟨records.map fun v => Text.utf8Chars v.write, by simp [encodeRecords, List.flatMap_map], ?_⟩
    intro line hline b hb
    obtain ⟨v, hv, rfl⟩ := List.mem_map.mp hline
    refine ⟨le_of_mem_write hb, ?_⟩
    rintro rfl
    obtain ⟨s, hs, hc⟩ := (eraseOctet_mem_iff v).mp hb
    exact h v hv s hs hc

/-- What goes into the terminal of a container that has some records for its input. -/
structure TypedIn (records : List Json.Value) (spec : Spec) (stdin : Option Bytes) : Prop where
  /-- Its input is a terminal. -/
  terminal : ∃ members, specDocument spec = .object members ∧ ("Tty", .bool true) ∈ members
  /-- While it lives that is given nothing, or the stream of the records and nothing else, -/
  once : ∀ {σ : Type} (engine : Server σ) (s : σ) (grace : Nat),
    fedIn ((live grace spec stdin).against engine s).2.1 = [] ∨
      fedIn ((live grace spec stdin).against engine s).2.1 = [terminated (encodeRecords records)]
  /-- and the stream if the container is told to have started. -/
  started : ∀ {σ : Type} (engine : Server σ) (s : σ) (grace : Nat) (id : String) (ask : Ask) (attached : Bool),
    (Stage.starting id).ask? spec stdin = some ask →
    ((answer grace ask).against engine s).2.2.1 = .started attached →
    fedIn ((answer grace ask).against engine s).2.1 = [terminated (encodeRecords records)]
  /-- The stream is a line for each record, and one end of transmission. -/
  lines : terminated (encodeRecords records) =
    (records.map fun v => Text.utf8Chars v.write).flatMap (· ++ [newline]) ++ [endOfTransmission]
  /-- In a record there is no octet below 0x20, -/
  controls : ∀ v ∈ records, ∀ b ∈ Text.utf8Chars v.write, 0x20 ≤ b.toNat
  /-- but the erase octet if U+007F is in one of its strings or names, and only then. -/
  erases : ∀ v ∈ records,
    (eraseOctet ∈ Text.utf8Chars v.write ↔ ∃ s ∈ v.texts, '\x7f' ∈ s.toList)
  /-- So the stream is neutral exactly if no record has U+007F in it. -/
  neutral_iff : Neutral (terminated (encodeRecords records)) ↔
    ∀ v ∈ records, ∀ s ∈ v.texts, '\x7f' ∉ s.toList

/-- **What goes into the terminal of a write container**, for every trigger of a write that is accepted. -/
theorem typed_in {t : Trigger} {r : RunDispatch.Request} (h : t.toRequest = .ok r)
    (hw : r.kind.isWrite = true) (layout : Layout) :
    TypedIn (t.records.getD []) (specFor r layout) r.records := by
  have hstdin : Stage.stdinFor (specFor r layout) r.records = some (encodeRecords (t.records.getD [])) := by
    rw [(Trigger.toRequest_payloads h).2, Stage.stdinFor, specFor, if_pos hw]
    cases t.records <;> rfl
  have hinput : (Stage.stdinFor (specFor r layout) r.records).toList.map terminated =
      [terminated (encodeRecords (t.records.getD []))] := by rw [hstdin]; rfl
  constructor
  case terminal => exact ⟨_, rfl, by simp [specFor, hw]⟩
  case once =>
    intro σ engine s grace
    rw [← hinput]
    exact fedIn_liveFrom engine grace _ _ _ _ _ s
  case started =>
    intro σ engine s grace id ask attached hask hreply
    cases hask
    obtain ⟨s', passes, reply, output, hagainst, -, hfailed | ⟨_, -, hfed⟩⟩ :=
      answer_start engine grace (Stage.stdinFor (specFor r layout) r.records) id (specFor r layout).name s
    · obtain ⟨f, rfl⟩ := hfailed
      rw [hagainst] at hreply
      cases hreply
    · rw [hagainst, ← hinput]
      exact hfed
  case lines => rw [terminated_encodeRecords, encodeRecords, List.flatMap_map]
  case controls => exact fun v _ b hb => le_of_mem_write hb
  case erases => exact fun v _ => eraseOctet_mem_iff v
  case neutral_iff => exact neutral_iff _

/-- A write of one record with controls in a name and in a string that is nested. -/
def sampleTrigger : Trigger where
  owner := "o"
  connector := "6f1c2a8e-3b4d-4e5f-9a0b-1c2d3e4f5a6b"
  image := "i"
  kind := .write
  containerName := none
  catalog := some (.object [])
  records := some [.object [("a\n", .array [.string "\u0004\t"])]]

/-- That record goes in unaltered. -/
theorem sample_typed_in : ∃ r, sampleTrigger.toRequest = .ok r ∧ r.kind.isWrite = true ∧
    TypedIn [.object [("a\n", .array [.string "\u0004\t"])]] (specFor r (.bind "r")) r.records ∧
    Neutral (terminated (encodeRecords [.object [("a\n", .array [.string "\u0004\t"])]])) := by
  have hsome : (sampleTrigger.toRequest.toOption.map (·.kind.isWrite)) = some true := by decide +kernel
  obtain ⟨r, hr, hw⟩ := Option.map_eq_some_iff.mp hsome
  have hrequest := ok_of_toOption hr
  have htyped := typed_in hrequest hw (.bind "r")
  exact ⟨r, hrequest, hw, htyped, htyped.neutral_iff.mpr (by decide)⟩

/-- The body of a write whose only record is U+007F, which it spells with digits. -/
def sampleErasing : String :=
  "[\"o\", \"6f1c2a8e-3b4d-4e5f-9a0b-1c2d3e4f5a6b\", \"i\", \"write\", null, \x7b\x7d, [\"\\u007f\"]]"

def sampleScript : Simulation.ScriptedEngine :=
  .start
    [ .answered 200 (Text.utf8 "\x7b\x7d"),
      .answered 201 (Text.utf8 "\x7b\"Id\":\"i\",\"Warnings\":[]\x7d"), .answered 101 [],
      .answered 204 [], .answered 200 (Text.utf8 "\x7b\"StatusCode\":0\x7d"), .answered 204 [],
      .answered 204 [] ]

/-- **A record that a terminal alters**: a write is accepted, and the erase octet goes into the terminal of its
container. -/
theorem sample_erased : ∃ t r, Trigger.parse sampleErasing = .ok t ∧ t.toRequest = .ok r ∧
    r.kind.isWrite = true ∧
    fedIn ((live 10 (specFor r (.bind "r")) r.records).against Simulation.ScriptedEngine.server
      sampleScript).2.1 = [[0x22, 0x7F, 0x22, newline, endOfTransmission]] ∧
    ¬ Neutral [0x22, 0x7F, 0x22, newline, endOfTransmission] := by
  have hinput : ((Trigger.parse sampleErasing).toOption.bind fun t => t.toRequest.toOption.map fun r =>
      (r.kind.isWrite, fedIn ((live 10 (specFor r (.bind "r")) r.records).against
        Simulation.ScriptedEngine.server sampleScript).2.1)) =
      some (true, [[0x22, 0x7F, 0x22, newline, endOfTransmission]]) := by decide +kernel
  obtain ⟨t, ht, hinput⟩ := Option.bind_eq_some_iff.mp hinput
  obtain ⟨r, hr, hinput⟩ := Option.map_eq_some_iff.mp hinput
  obtain ⟨hwrite, hfed⟩ := Prod.mk.inj hinput
  refine ⟨t, r, ok_of_toOption ht, ok_of_toOption hr, hwrite, hfed, fun hneutral => ?_⟩
  exact hneutral.eraseOctet_notMem (by decide)

end RunDispatch.Engine
