/-
# Owners apart

The store is shared by all owners. Reading a configuration and writing a connectivity each look for the
row that their owner sees under a name, and each finds it exactly if there is a row with that name and
that owner which is not deleted. A write changes the connectivity and the time of change of that row.

Neither looks at what a write changes, so every call is answered as if it were the only one
(`Regular.serve_answers`), from the rows of its owner; and these are, after calls of all owners, what his
own calls have made of them (`Regular.own_serve`).

Key definitions: `Call`, `Database.call`, `Database.serve`, `Database.Has`, `Database.Regular`,
`Database.own`, `Database.Serves`.
Key theorems: `Database.Regular.call_eq`, `Database.Regular.serves`, `Database.Regular.serve_answers`,
`Database.Regular.own_serve`, `Database.Regular.isolation`.
-/
import Mathlib.Data.List.Nodup
import RunDispatch.Store.Database

namespace RunDispatch.Store

/-! ### Calls -/

/-- What is asked of the store about a connector. -/
inductive Query where
  | configuration
  | connectivity (state : Connector.State)

/-- A call on the store: whose it is, about which connector, what it asks, and what time the store then
has. -/
structure Call where
  owner : String
  id : Connector.Id
  query : Query
  stamp : Option Moment

/-- What a call that succeeds is answered. -/
inductive Answer where
  | configuration (bytes : Bytes)
  | stored

/-- What a call makes of a row. -/
def Call.change (c : Call) (r : Row) : Row :=
  match c.query with
  | .configuration => r
  | .connectivity state => Database.setState c.owner c.id state c.stamp r

/-- What a call is answered if it finds a row. -/
def Call.answer (c : Call) (r : Row) : Answer :=
  match c.query with
  | .configuration => .configuration (Text.utf8Chars r.configuration.write)
  | .connectivity _ => .stored

namespace Database

/-- The store after a call, and the answer. -/
def call (d : Database) (c : Call) : Database × Except StoreError Answer :=
  match c.query with
  | .configuration => (d, (d.readConfiguration c.owner c.id).map .configuration)
  | .connectivity state =>
    let written := d.writeState c.owner c.id state c.stamp
    (written.1, written.2.map fun _ => .stored)

/-- The store after calls one after another, and the calls with their answers. -/
def serve (d : Database) : List Call → Database × List (Call × Except StoreError Answer)
  | [] => (d, [])
  | c :: rest =>
    let (d', answer) := d.call c
    let (last, answers) := d'.serve rest
    (last, (c, answer) :: answers)

/-- Whether there is a row with a name and an owner that is not deleted. -/
def Has (d : Database) (owner : String) (id : Connector.Id) : Prop :=
  ∃ r ∈ d.rows, r.id = id ∧ r.owner = owner ∧ r.deletedAt = none

/-- Whether every connector has a name of its own, and every statement succeeds. -/
structure Regular (d : Database) : Prop where
  ids : (d.rows.map (·.id)).Nodup
  reads : d.readFault = none
  writes : d.writeFault = none

def own (d : Database) (owner : String) : List Row := d.rows.filter (·.owner = owner)

end Database

/-! ### Rows -/

theorem Row.isSeen_iff {r : Row} {owner : String} {id : Connector.Id} :
    r.isSeen owner id = true ↔ r.id = id ∧ r.owner = owner ∧ r.deletedAt = none := by
  simp [isSeen, and_assoc]

theorem isSeen_setState (owner o : String) (id i : Connector.Id) (state : Connector.State)
    (stamp : Option Moment) (r : Row) :
    (Database.setState owner id state stamp r).isSeen o i = r.isSeen o i := by
  unfold Database.setState
  split <;> rfl

theorem find?_setState (rows : List Row) (owner o : String) (id i : Connector.Id)
    (state : Connector.State) (stamp : Option Moment) :
    (rows.map (Database.setState owner id state stamp)).find? (·.isSeen o i) =
      (rows.find? (·.isSeen o i)).map (Database.setState owner id state stamp) := by
  rw [List.find?_map]
  simp only [Function.comp_def, isSeen_setState]

namespace Call

variable (c : Call) (r : Row)

theorem change_eq_self {c : Call} {r : Row} (h : ¬ r.isSeen c.owner c.id = true) :
    c.change r = r := by
  unfold change
  split
  · rfl
  · rw [Database.setState, if_neg h]

theorem change_other {c : Call} {r : Row} (h : r.owner ≠ c.owner) : c.change r = r :=
  change_eq_self fun hseen => h (Row.isSeen_iff.mp hseen).2.1

@[simp]
theorem id_change : (c.change r).id = r.id := by
  unfold change Database.setState
  split
  · rfl
  · split <;> rfl

@[simp]
theorem owner_change : (c.change r).owner = r.owner := by
  unfold change Database.setState
  split
  · rfl
  · split <;> rfl

@[simp]
theorem isSeen_change (o : String) (i : Connector.Id) :
    (c.change r).isSeen o i = r.isSeen o i := by
  unfold change
  split
  · rfl
  · exact isSeen_setState ..

/-- What a call is answered does not depend on what calls change. -/
theorem answer_change (c' : Call) : c'.answer (c.change r) = c'.answer r := by
  have hconf : (c.change r).configuration = r.configuration := by
    unfold change Database.setState
    split
    · rfl
    · split <;> rfl
  unfold answer
  rw [hconf]

end Call

namespace Database

variable {d e : Database} {owner : String} {id : Connector.Id}

theorem any_isSeen_iff : d.rows.any (·.isSeen owner id) = true ↔ d.Has owner id := by
  simp only [List.any_eq_true, Row.isSeen_iff]
  rfl

/-- A row that is seen is the one that is found, as no other has its name. -/
theorem Regular.find?_eq_some (h : d.Regular) {r : Row} :
    d.rows.find? (·.isSeen owner id) = some r ↔ r ∈ d.rows ∧ r.isSeen owner id = true := by
  constructor
  · intro hr
    exact ⟨List.mem_of_find?_eq_some hr, by simpa using List.find?_some hr⟩
  · rintro ⟨hmem, hseen⟩
    have hsome : (d.rows.find? (·.isSeen owner id)).isSome = true :=
      List.find?_isSome.mpr ⟨r, hmem, hseen⟩
    obtain ⟨r', hr'⟩ := Option.isSome_iff_exists.mp hsome
    have hseen' : r'.isSeen owner id = true := by simpa using List.find?_some hr'
    have hid : r'.id = r.id := (Row.isSeen_iff.mp hseen').1.trans (Row.isSeen_iff.mp hseen).1.symm
    rw [hr', List.inj_on_of_nodup_map h.ids (List.mem_of_find?_eq_some hr') hmem hid]

/-! ### What a call does -/

/-- What the store answers to a call, and what it is like after it. -/
structure Serves (d : Database) (c : Call) : Prop where
  /-- A call succeeds exactly if the connector is its owner's, and not deleted. -/
  succeeds : (d.call c).2.isOk = true ↔ d.Has c.owner c.id
  /-- Otherwise it is told that there is none, and nothing changes. -/
  refuses : ¬ d.Has c.owner c.id → d.call c = (d, .error (.notFound c.owner c.id))
  /-- It sees the connector if any other call of the owner about it does. -/
  agrees : ∀ query, (d.call { c with query }).2.isOk = (d.call c).2.isOk
  /-- Reading changes nothing. -/
  reads : c.query = .configuration → (d.call c).1 = d
  /-- Writing changes the connectivity and the time of change of one row, and the number that is
  written is that of the state. -/
  writes : ∀ state, c.query = .connectivity state → d.Has c.owner c.id → ∃ i r,
    d.rows[i]? = some r ∧ r.id = c.id ∧ r.owner = c.owner ∧ r.deletedAt = none ∧
      (d.call c).1 = { d with
        rows := d.rows.set i
          { r with stateNumber := state.number, updatedAt := c.stamp.getD r.updatedAt } } ∧
      Connector.State.ofNumber? state.number = some state
  /-- The rows of other owners stay as they are. -/
  others : ∀ o, o ≠ c.owner → (d.call c).1.own o = d.own o

theorem Regular.readConfiguration (h : d.Regular) :
    d.readConfiguration owner id =
      match d.rows.find? (·.isSeen owner id) with
      | none => .error (.notFound owner id)
      | some r => .ok (Text.utf8Chars r.configuration.write) := by
  unfold Database.readConfiguration find barring
  rw [h.reads]
  cases d.rows.find? (·.isSeen owner id) <;> rfl

theorem Regular.writeState (h : d.Regular) (state : Connector.State) (stamp : Option Moment) :
    d.writeState owner id state stamp =
      if d.rows.any (·.isSeen owner id) then
        ({ d with rows := d.rows.map (setState owner id state stamp) }, .ok ())
      else (d, .error (.notFound owner id)) := by
  unfold Database.writeState barring
  rw [h.writes]

/-- Changing the row that is seen is changing it at its place. -/
theorem Regular.map_setState (h : d.Regular) {i : Nat} {r : Row} (hr : d.rows[i]? = some r)
    (hseen : r.isSeen owner id = true) (state : Connector.State) (stamp : Option Moment) :
    d.rows.map (setState owner id state stamp) =
      d.rows.set i { r with stateNumber := state.number, updatedAt := stamp.getD r.updatedAt } := by
  apply List.ext_getElem?
  intro j
  rw [List.getElem?_map, List.getElem?_set]
  by_cases hij : i = j
  · subst hij
    obtain ⟨hi, -⟩ := List.getElem?_eq_some_iff.mp hr
    rw [if_pos rfl, if_pos hi, hr, Option.map_some, setState, if_pos hseen]
  · rw [if_neg hij]
    cases hj : d.rows[j]? with
    | none => rfl
    | some r' =>
      rw [Option.map_some, setState, if_neg]
      intro hseen'
      have hid : r.id = r'.id := (Row.isSeen_iff.mp hseen).1.trans (Row.isSeen_iff.mp hseen').1.symm
      have hlt : i < (d.rows.map (·.id)).length := by
        rw [List.length_map]
        exact (List.getElem?_eq_some_iff.mp hr).1
      have hsame : (d.rows.map (·.id))[i]? = (d.rows.map (·.id))[j]? := by simp [hr, hj, hid]
      exact hij ((List.getElem?_inj hlt h.ids).mp hsame)

theorem map_change_eq_self {c : Call} (hc : ¬ d.Has c.owner c.id) :
    d.rows.map c.change = d.rows := by
  have hid : ∀ r ∈ d.rows, c.change r = id r := fun r hr =>
    Call.change_eq_self fun hseen => hc ⟨r, hr, Row.isSeen_iff.mp hseen⟩
  calc d.rows.map c.change = d.rows.map id := List.map_congr_left hid
    _ = d.rows := List.map_id _

theorem find?_isSeen_eq_none (hc : ¬ d.Has owner id) :
    d.rows.find? (·.isSeen owner id) = none := by
  rw [← Option.not_isSome_iff_eq_none, List.isSome_find?]
  exact any_isSeen_iff.not.mpr hc

/-- **A call** changes the row that its owner sees under the name, and is answered from that row. -/
theorem Regular.call_eq (h : d.Regular) (c : Call) :
    d.call c =
      ({ d with rows := d.rows.map c.change },
        match d.rows.find? (·.isSeen c.owner c.id) with
        | none => .error (.notFound c.owner c.id)
        | some r => .ok (c.answer r)) := by
  unfold call Call.answer
  cases hq : c.query with
  | configuration =>
    have hchange : c.change = id := by
      funext r
      simp [Call.change, hq]
    rw [h.readConfiguration, hchange, List.map_id]
    cases d.rows.find? (·.isSeen c.owner c.id) <;> rfl
  | connectivity state =>
    have hchange : setState c.owner c.id state c.stamp = c.change := by
      funext r
      simp [Call.change, hq]
    dsimp only
    rw [h.writeState, hchange]
    by_cases hc : d.Has c.owner c.id
    · have hany := any_isSeen_iff.mpr hc
      obtain ⟨r, hr⟩ := Option.isSome_iff_exists.mp (List.isSome_find?.trans hany)
      rw [if_pos hany, hr]
      rfl
    · rw [if_neg (any_isSeen_iff.not.mpr hc), find?_isSeen_eq_none hc, map_change_eq_self hc]
      rfl

theorem Regular.isOk_call (h : d.Regular) (c : Call) :
    (d.call c).2.isOk = true ↔ d.Has c.owner c.id := by
  rw [h.call_eq, ← any_isSeen_iff, ← List.isSome_find?]
  cases d.rows.find? (·.isSeen c.owner c.id) <;> simp [Except.isOk, Except.toBool]

theorem Regular.own_call (h : d.Regular) (c : Call) (o : String) :
    (d.call c).1.own o = (d.own o).map c.change := by
  rw [h.call_eq]
  unfold own
  rw [List.filter_map]
  congr 2
  funext r
  simp

/-- **The calls of others** leave the rows of an owner as they are. -/
theorem Regular.own_call_other (h : d.Regular) {c : Call} {o : String} (ho : o ≠ c.owner) :
    (d.call c).1.own o = d.own o := by
  have hid : ∀ r ∈ d.own o, c.change r = id r := by
    intro r hr
    have hr : r ∈ d.rows ∧ r.owner = o := by simpa [own] using hr
    exact Call.change_other (hr.2 ▸ ho)
  calc (d.call c).1.own o = (d.own o).map c.change := h.own_call c o
    _ = (d.own o).map id := List.map_congr_left hid
    _ = d.own o := List.map_id _

/-- **What a call does** to a store in which every statement succeeds. -/
theorem Regular.serves (h : d.Regular) (c : Call) : d.Serves c where
  succeeds := h.isOk_call c
  refuses hc := by
    rw [h.call_eq, map_change_eq_self hc, find?_isSeen_eq_none hc]
  agrees query := by
    rw [Bool.eq_iff_iff, h.isOk_call, h.isOk_call]
  reads hq := by
    unfold call
    rw [hq]
  writes state hq hc := by
    obtain ⟨r, hmem, hr⟩ := hc
    obtain ⟨i, hi⟩ := List.mem_iff_getElem?.mp hmem
    refine ⟨i, r, hi, hr.1, hr.2.1, hr.2.2, ?_, state.ofNumber?_number⟩
    have hchange : c.change = setState c.owner c.id state c.stamp := by
      funext r
      simp [Call.change, hq]
    rw [h.call_eq, hchange, h.map_setState hi (Row.isSeen_iff.mpr hr)]
  others o ho := h.own_call_other ho

/-! ### Many calls -/

theorem Regular.call (h : d.Regular) (c : Call) : (d.call c).1.Regular := by
  rw [h.call_eq]
  refine ⟨?_, h.reads, h.writes⟩
  simpa [Function.comp_def] using h.ids

theorem Regular.answer_call (h : d.Regular) (c c' : Call) :
    ((d.call c').1.call c).2 = (d.call c).2 := by
  rw [(h.call c').call_eq, h.call_eq c, h.call_eq c']
  simp only [List.find?_map, Function.comp_def, Call.isSeen_change]
  cases d.rows.find? (·.isSeen c.owner c.id) with
  | none => rfl
  | some r => simp [Call.answer_change]

theorem Regular.serve (h : d.Regular) (calls : List Call) : (d.serve calls).1.Regular := by
  induction calls generalizing d with
  | nil => exact h
  | cons c rest ih => exact ih (h.call c)

/-- **Every call is answered as if it were the only one.** -/
theorem Regular.serve_answers (h : d.Regular) (calls : List Call) :
    (d.serve calls).2 = calls.map fun c => (c, (d.call c).2) := by
  induction calls generalizing d with
  | nil => rfl
  | cons c rest ih =>
    have hrest : rest.map (fun c' => (c', ((d.call c).1.call c').2)) =
        rest.map fun c' => (c', (d.call c').2) :=
      List.map_congr_left fun c' _ => by rw [h.answer_call]
    simp only [Database.serve, List.map_cons]
    rw [ih (h.call c), hrest]

/-- **The rows of an owner** after calls are what his own calls have made of them. -/
theorem Regular.own_serve (h : d.Regular) (calls : List Call) (o : String) :
    (d.serve calls).1.own o =
      (d.own o).map fun r => (calls.filter (·.owner = o)).foldl (fun r c => c.change r) r := by
  induction calls generalizing d with
  | nil => simp [Database.serve]
  | cons c rest ih =>
    simp only [Database.serve]
    rw [ih (h.call c)]
    by_cases ho : c.owner = o
    · rw [h.own_call, List.map_map, List.filter_cons_of_pos (by simpa using ho)]
      rfl
    · rw [h.own_call_other (Ne.symm ho), List.filter_cons_of_neg (by simpa using ho)]

/-- Whom an owner's call finds is told by his own rows. -/
theorem Regular.call_congr (h : d.Regular) (he : e.Regular) {c : Call}
    (hown : (d.own c.owner).Perm (e.own c.owner)) : (d.call c).2 = (e.call c).2 := by
  have hfind : d.rows.find? (·.isSeen c.owner c.id) = e.rows.find? (·.isSeen c.owner c.id) := by
    apply Option.ext
    intro r
    have hmem : r ∈ d.own c.owner ↔ r ∈ e.own c.owner := hown.mem_iff
    rw [h.find?_eq_some, he.find?_eq_some]
    refine and_congr_left fun hseen => ?_
    simpa [own, (Row.isSeen_iff.mp hseen).2.1] using hmem
  rw [h.call_eq, he.call_eq, hfind]

/-- **Owners are apart.** Whatever calls there are, of whatever owners: each does what it should to the
store that the calls before it have left, and is answered as if it were the only one; an owner whose
calls are not among them finds his rows as they were; and of two stores and two series of calls that
differ in nothing of an owner's, he is answered the same, and his rows are the same in the end. -/
theorem Regular.isolation (h : d.Regular) (calls : List Call) :
    (∀ before c after, calls = before ++ c :: after → (d.serve before).1.Serves c) ∧
    (d.serve calls).2 = calls.map (fun c => (c, (d.call c).2)) ∧
    (∀ o, (∀ c ∈ calls, c.owner ≠ o) → (d.serve calls).1.own o = d.own o) ∧
    ∀ (o : String) (e : Database) (calls' : List Call), e.Regular → (d.own o).Perm (e.own o) →
      calls.filter (·.owner = o) = calls'.filter (·.owner = o) →
      (d.serve calls).2.filter (·.1.owner = o) = (e.serve calls').2.filter (·.1.owner = o) ∧
        ((d.serve calls).1.own o).Perm ((e.serve calls').1.own o) := by
  refine ⟨fun before c _ _ => (h.serve before).serves c, h.serve_answers calls, ?_, ?_⟩
  · intro o ho
    have hnone : calls.filter (·.owner = o) = [] :=
      List.filter_eq_nil_iff.mpr fun c hc => by simpa using ho c hc
    rw [h.own_serve, hnone]
    exact List.map_id _
  · intro o e calls' he hown hcalls
    constructor
    · have hanswers : (calls.filter (·.owner = o)).map (fun c => (c, (d.call c).2)) =
          (calls.filter (·.owner = o)).map fun c => (c, (e.call c).2) := by
        apply List.map_congr_left
        intro c hc
        have ho : c.owner = o := by simpa using List.of_mem_filter hc
        rw [h.call_congr he (ho ▸ hown)]
      rw [h.serve_answers, he.serve_answers, List.filter_map, List.filter_map]
      calc _ = _ := hanswers
        _ = _ := by rw [hcalls]; rfl
    · rw [h.own_serve, he.own_serve, hcalls]
      exact hown.map _

def sampleName (last : Bool) : Connector.Id :=
  ⟨List.replicate 32 (bif last then .last 15 else (Fin.last 15).rev), List.length_replicate⟩

def sampleShared : Database where
  rows :=
    [⟨sampleName false, "o", .null, 1, none, ⟨0⟩, ⟨0⟩⟩, ⟨sampleName true, "p", .null, 1, none, ⟨0⟩, ⟨0⟩⟩]
  states := []
  readFault := none
  writeFault := none

def sampleAlone : Database where
  rows := [⟨sampleName false, "o", .null, 1, none, ⟨0⟩, ⟨0⟩⟩]
  states := []
  readFault := none
  writeFault := none

def sampleOwn : List Call :=
  [⟨"o", sampleName false, .connectivity .connected, some ⟨5⟩⟩,
    ⟨"o", sampleName true, .configuration, none⟩]

def sampleForeign : Call := ⟨"p", sampleName false, .connectivity .error, some ⟨7⟩⟩

/-- The owner "o" cannot tell whether "p" is there. -/
theorem sample_isolation : sampleShared.Regular ∧ sampleAlone.Regular ∧
    (sampleShared.serve (sampleForeign :: sampleOwn)).2.filter (·.1.owner = "o") =
      (sampleAlone.serve sampleOwn).2.filter (·.1.owner = "o") := by
  have hshared : sampleShared.Regular := ⟨by decide, rfl, rfl⟩
  have halone : sampleAlone.Regular := ⟨by decide, rfl, rfl⟩
  have hown : sampleShared.own "o" = sampleAlone.own "o" := rfl
  obtain ⟨-, -, -, hapart⟩ := hshared.isolation (sampleForeign :: sampleOwn)
  exact ⟨hshared, halone, (hapart "o" sampleAlone sampleOwn halone (.of_eq hown) rfl).1⟩

end Database

end RunDispatch.Store
