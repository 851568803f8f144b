/-
# Where payloads lie

Payloads are named by paths, and the staging root of these may lead up and down again. Once the part of the
root up to its last `..` leads to a directory, the rest of every path goes straight down from there: the
payloads of all runs have places of their own, one below each folder of a kind, and only the directories
above these are shared. What is to be told of a payload's path is then told by what lies at its place.

Key definitions: `Tree.Grounded`, `Tree.pave`, `Proper`, `Site`, `Site.Stands`.
Key theorems: `Tree.walk_eq_ok`, `Tree.Grounded.makeDirectoriesFrom_eq`, `proper_of_checkName`,
`Site.Stands.locate_eq_ok`, `Site.Stands.entryAt_eq_some`.
-/
import RunDispatch.Proofs.Staging.Removal
import Mathlib.Data.List.Induction

namespace RunDispatch.Staging

/-- A file at the end of a way is there already; further up it is no directory. -/
def OsError.onward : OsError → OsError
  | .alreadyExists => .notDirectory
  | e => e

namespace Tree

variable {t u : Tree}

/-! ### Trees without loose ends -/

/-- Whether everything lies in a directory. -/
def Grounded (t : Tree) : Prop :=
  ∀ (p : Place) (c : String) (e : Entry), t.find? (p ++ [c]) = some e → t.find? p = some .directory

theorem grounded_empty : empty.Grounded := fun p c e h => by simp [empty, find?] at h

theorem find?_top (t : Tree) : t.find? [] = some .directory := if_pos rfl

theorem Grounded.above (hg : t.Grounded) {p : Place} {names : List String} {e : Entry}
    (h : t.find? (p ++ names) = some e) (hn : names ≠ []) : t.find? p = some .directory := by
  induction names using List.reverseRecOn generalizing e with
  | nil => exact absurd rfl hn
  | append_singleton rest c ih =>
    rw [← List.append_assoc] at h
    have hd := hg _ _ _ h
    cases rest with
    | nil => simpa using hd
    | cons a rest => exact ih hd (by simp)

theorem Grounded.put (hg : t.Grounded) {p : Place} {c : String} {e : Entry}
    (hp : t.find? p = some .directory)
    (he : e = .directory ∨ t.find? (p ++ [c]) ≠ some .directory) : (t.put (p ++ [c]) e).Grounded := by
  intro q d e' hq
  rw [find?_put] at hq ⊢
  have hqd : t.find? q = some .directory := by
    split at hq
    · rename_i hqp
      rw [(List.append_inj' hqp.1 rfl).1, hp]
    · exact hg q d e' hq
  split
  · rename_i hqp
    rcases he with rfl | he
    · rfl
    · rw [hqp.1] at hqd
      exact absurd hqd he
  · exact hqd

theorem Grounded.erase (hg : t.Grounded) {p : Place} {content : Bytes}
    (hp : t.find? p = some (.file content)) : (t.erase p).Grounded := by
  intro q d e' hq
  have hqd : t.find? q = some .directory := by
    rw [find?_erase] at hq
    split at hq
    · cases hq
    · exact hg q d e' hq
  exact (find?_erase_directory hp q).mpr hqd

/-! ### Ways down -/

/-- Whether a name is short enough to be followed. -/
def Short (c : String) : Prop := (Text.utf8 c).length ≤ maxNameLength

instance : DecidablePred Short := fun _ => inferInstanceAs (Decidable (_ ≤ _))

theorem walk_append (t : Tree) (start : Place) (a b : List String) :
    t.walk start (a ++ b) = t.walk start a >>= fun p => t.walk p b := by
  induction a generalizing start with
  | nil => rfl
  | cons c rest ih =>
    simp only [List.cons_append, walk]
    split
    · exact ih _
    · split
      · rfl
      · split
        · rfl
        · rfl
        · exact ih _

theorem walk_mono (h : ∀ p, t.find? p = some .directory → u.find? p = some .directory)
    {names : List String} {start p : Place} (hw : t.walk start names = .ok p) :
    u.walk start names = .ok p := by
  induction names generalizing start with
  | nil => exact hw
  | cons c rest ih =>
    by_cases hc : c = ".."
    · rw [hc, walk_parent] at hw ⊢
      exact ih hw
    · obtain ⟨hl, hd, hw⟩ := (walk_cons_eq_ok hc).mp hw
      exact (walk_cons_eq_ok hc).mpr ⟨hl, h _ hd, ih hw⟩

/-- A way from a directory leads to a directory. -/
theorem Grounded.find?_of_walk (hg : t.Grounded) {names : List String} {start p : Place}
    (hs : t.find? start = some .directory) (hw : t.walk start names = .ok p) :
    t.find? p = some .directory := by
  induction names generalizing start with
  | nil =>
    cases hw
    exact hs
  | cons c rest ih =>
    by_cases hc : c = ".."
    · rw [hc, walk_parent] at hw
      refine ih ?_ hw
      rcases List.eq_nil_or_concat start with rfl | ⟨above, last, rfl⟩
      · exact hs
      · rw [List.concat_eq_append, List.dropLast_concat]
        rw [List.concat_eq_append] at hs
        exact hg _ _ _ hs
    · obtain ⟨-, hd, hw⟩ := (walk_cons_eq_ok hc).mp hw
      exact ih hd hw

theorem not_mem_cons {c : String} {names : List String} (h : ".." ∉ c :: names) :
    c ≠ ".." ∧ ".." ∉ names :=
  ⟨(List.ne_of_not_mem_cons h).symm, List.not_mem_of_not_mem_cons h⟩

/-- **A way that never leads back** leads down through names that are short enough, to a directory. -/
theorem walk_eq_ok (hg : t.Grounded) {names : List String} (hn : ".." ∉ names) {p q : Place}
    (hp : t.find? p = some .directory) :
    t.walk p names = .ok q ↔
      q = p ++ names ∧ (∀ c ∈ names, Short c) ∧ t.find? (p ++ names) = some .directory := by
  induction names generalizing p with
  | nil => simp [walk, hp, eq_comm]
  | cons c rest ih =>
    obtain ⟨hc, hrest⟩ := not_mem_cons hn
    have happ : p ++ c :: rest = p ++ [c] ++ rest := by simp
    rw [walk_cons_eq_ok hc, happ]
    constructor
    · rintro ⟨hl, hd, hw⟩
      obtain ⟨hq, hs, hf⟩ := (ih hrest hd).mp hw
      exact ⟨hq, List.forall_mem_cons.mpr ⟨hl, hs⟩, hf⟩
    · rintro ⟨hq, hs, hf⟩
      obtain ⟨hl, hs⟩ := List.forall_mem_cons.mp hs
      have hd : t.find? (p ++ [c]) = some .directory := by
        cases rest with
        | nil => simpa using hf
        | cons d rest => exact hg.above hf (by simp)
      exact ⟨hl, hd, (ih hrest hd).mpr ⟨hq, hs, hf⟩⟩

theorem locate_concat (t : Tree) (names : List String) {last : String} (hd : last ≠ "..")
    (hl : Short last) : t.locate (names ++ [last]) = (t.walk [] names).map (· ++ [last]) := by
  unfold locate
  rw [List.getLast?_concat, List.dropLast_concat]
  simp only [if_neg hd, if_neg (Nat.not_lt.mpr hl)]
  cases t.walk [] names <;> rfl

/-! ### Making the directories on a way -/

/-- Makes the directories on a way down from a place, one after another, where they are missing. -/
def pave (t : Tree) (p : Place) : List String → Tree × Option OsError
  | [] => (t, none)
  | c :: rest =>
    if maxNameLength < (Text.utf8 c).length then (t, some .nameTooLong)
    else match t.find? (p ++ [c]) with
      | none => (t.put (p ++ [c]) .directory).pave (p ++ [c]) rest
      | some (.file _) => (t, some (if rest = [] then .alreadyExists else .notDirectory))
      | some .directory => t.pave (p ++ [c]) rest

theorem pave_concat (t : Tree) (p : Place) (names : List String) (c : String) :
    t.pave p (names ++ [c]) =
      match t.pave p names with
      | (u, some e) => (u, some e.onward)
      | (u, none) => u.pave (p ++ names) [c] := by
  induction names generalizing t p with
  | nil => rw [List.append_nil]; rfl
  | cons d rest ih =>
    have happ : p ++ d :: rest = p ++ [d] ++ rest := by simp
    rw [List.cons_append, pave, pave, happ]
    split
    · rfl
    · split
      · exact ih _ _
      · cases rest <;> rfl
      · exact ih _ _

/-- A way that leads on needs no directory. -/
theorem pave_of_walk {names : List String} (hn : ".." ∉ names) {p q : Place}
    (hw : t.walk p names = .ok q) : t.pave p names = (t, none) := by
  induction names generalizing p with
  | nil => rfl
  | cons c rest ih =>
    obtain ⟨hc, hrest⟩ := not_mem_cons hn
    obtain ⟨hl, hd, hw⟩ := (walk_cons_eq_ok hc).mp hw
    rw [pave, if_neg (Nat.not_lt.mpr hl), hd]
    exact ih hrest hw

/-- A way that is blocked cannot be made. -/
theorem pave_of_blocked {names : List String} (hn : ".." ∉ names) {p : Place} {e : OsError}
    (hw : t.walk p names = .error e) (he : e ≠ .notFound) (c : String) :
    t.pave p (names ++ [c]) = (t, some e) := by
  induction names generalizing p with
  | nil => cases hw
  | cons d rest ih =>
    obtain ⟨hd, hrest⟩ := not_mem_cons hn
    rw [walk, if_neg hd] at hw
    rw [List.cons_append, pave]
    by_cases hl : maxNameLength < (Text.utf8 d).length
    · rw [if_pos hl] at hw ⊢
      cases hw
      rfl
    · rw [if_neg hl] at hw ⊢
      cases hf : t.find? (p ++ [d]) with
      | none =>
        rw [hf] at hw
        cases hw
        exact absurd rfl he
      | some entry =>
        rw [hf] at hw
        cases entry with
        | file content =>
          cases hw
          simp
        | directory => exact ih hrest hw

theorem pave_of_nothing {names : List String} {p : Place}
    (h : ∀ rest, rest ≠ [] → t.find? (p ++ rest) = none) :
    (t.pave p names).2 = none ∨ (t.pave p names).2 = some .nameTooLong := by
  induction names generalizing t p with
  | nil => exact .inl rfl
  | cons c rest ih =>
    rw [pave]
    split
    · exact .inr rfl
    · rw [h [c] (by simp)]
      refine ih fun below hb => ?_
      rw [find?_put, if_neg (by simp [hb]), List.append_assoc]
      exact h _ (by simp)

/-- A way that is missing from some name on is blocked there by the length of a name at most. -/
theorem Grounded.pave_of_missing (hg : t.Grounded) {names : List String} (hn : ".." ∉ names)
    {p : Place} (hw : t.walk p names = .error .notFound) :
    (t.pave p names).2 = none ∨ (t.pave p names).2 = some .nameTooLong := by
  induction names generalizing p with
  | nil => cases hw
  | cons c rest ih =>
    obtain ⟨hc, hrest⟩ := not_mem_cons hn
    rw [walk, if_neg hc] at hw
    by_cases hl : maxNameLength < (Text.utf8 c).length
    · rw [if_pos hl] at hw
      cases hw
    · rw [if_neg hl] at hw
      rw [pave, if_neg hl]
      cases hf : t.find? (p ++ [c]) with
      | none =>
        refine pave_of_nothing fun below hb => ?_
        rw [find?_put, if_neg (by simp [hb])]
        refine Option.eq_none_iff_forall_ne_some.mpr fun e he => ?_
        rw [hg.above he hb] at hf
        cases hf
      | some entry =>
        rw [hf] at hw
        cases entry with
        | file content => cases hw
        | directory => exact ih hrest hw

/-- Directories that are there stay when others are made. -/
theorem find?_pave {names : List String} {p q : Place} (hq : t.find? q = some .directory) :
    (t.pave p names).1.find? q = some .directory := by
  induction names generalizing t p with
  | nil => exact hq
  | cons c rest ih =>
    rw [pave]
    split
    · exact hq
    · split
      · refine ih ?_
        rw [find?_put]
        split
        · rfl
        · exact hq
      · exact hq
      · exact ih hq

/-- A way that was made leads on. -/
theorem walk_of_pave {names : List String} (hn : ".." ∉ names) {p : Place}
    (h : (t.pave p names).2 = none) : (t.pave p names).1.walk p names = .ok (p ++ names) := by
  induction names generalizing t p with
  | nil => simp [walk]
  | cons c rest ih =>
    obtain ⟨hc, hrest⟩ := not_mem_cons hn
    have happ : p ++ c :: rest = p ++ [c] ++ rest := by simp
    rw [walk_cons_eq_ok hc, happ]
    rw [pave] at h ⊢
    split at h
    · cases h
    · rename_i hl
      have hl' := Nat.not_lt.mp hl
      rw [if_neg hl]
      split at h
      · refine ⟨hl', find?_pave ?_, ih hrest h⟩
        rw [find?_put, if_pos ⟨rfl, by simp⟩]
      · cases h
      · rename_i hf
        exact ⟨hl', find?_pave hf, ih hrest h⟩

/-- A path on which one can walk leads there. -/
theorem locate_of_walk {names : List String} {p : Place} (hw : t.walk [] names = .ok p) :
    t.locate names = .ok p := by
  rcases List.eq_nil_or_concat names with rfl | ⟨rest, last, rfl⟩
  · cases hw
    rfl
  · rw [List.concat_eq_append] at hw ⊢
    rw [walk_append] at hw
    obtain ⟨dir, hdir, hw⟩ := ok_of_bind hw
    unfold locate
    rw [List.getLast?_concat, List.dropLast_concat]
    by_cases hl : last = ".."
    · subst hl
      cases hw
      simp only [hdir, bind, Except.bind, if_pos]
      rfl
    · obtain ⟨hs, hd, hw⟩ := (walk_cons_eq_ok hl).mp hw
      cases hw
      simp only [hdir, bind, Except.bind, if_neg hl, if_neg (Nat.not_lt.mpr hs)]
      rfl

theorem makeDirectory_of_locate {names : List String} {p : Place} (h : t.locate names = .ok p) :
    t.makeDirectory names =
      if (t.find? p).isSome then .error .alreadyExists else .ok (t.put p .directory) := by
  simp only [makeDirectory, h, bind, Except.bind]
  rfl

theorem makeDirectory_of_not_locate {names : List String} {e : OsError}
    (h : t.locate names = .error e) : t.makeDirectory names = .error e := by
  simp only [makeDirectory, h, bind, Except.bind]

theorem isDirectory_of_locate {names : List String} {p : Place} (h : t.locate names = .ok p) :
    t.isDirectory names = (t.find? p = some .directory : Bool) := by
  simp only [isDirectory, stat, h, bind, Except.bind]
  cases t.find? p with
  | none => rfl
  | some e => cases e <;> rfl

theorem isDirectory_of_not_locate {names : List String} {e : OsError}
    (h : t.locate names = .error e) : t.isDirectory names = false := by
  simp only [isDirectory, stat, h, bind, Except.bind]

theorem makeDirectoriesFrom_of_directory {names : List String} {p : Place}
    (h : t.locate names = .ok p) (hp : t.find? p = some .directory) (above : Nat) :
    t.makeDirectoriesFrom names above = (t, none) := by
  cases above with
  | zero => rfl
  | succ above =>
    rw [makeDirectoriesFrom, makeDirectory_of_locate h, isDirectory_of_locate h, hp]
    rfl

theorem locate_of_walk_error (t : Tree) {names : List String} {e : OsError}
    (hw : t.walk [] names = .error e) (last : String) : t.locate (names ++ [last]) = .error e := by
  unfold locate
  rw [List.getLast?_concat, List.dropLast_concat]
  simp only [hw, bind, Except.bind]

/-- What comes of making the last directory of a path, if the way to it is there. -/
theorem makeDirectory_concat {names : List String} {p : Place} (hw : t.walk [] names = .ok p)
    {c : String} (hc : c ≠ "..") :
    (∃ u, t.makeDirectory (names ++ [c]) = .ok u ∧ t.pave p [c] = (u, none)) ∨
    (∃ e, e ≠ .notFound ∧ t.makeDirectory (names ++ [c]) = .error e ∧
      t.pave p [c] = (t, if t.isDirectory (names ++ [c]) then none else some e)) := by
  rw [pave]
  by_cases hl : maxNameLength < (Text.utf8 c).length
  · have hloc : t.locate (names ++ [c]) = .error .nameTooLong := by
      unfold locate
      rw [List.getLast?_concat, List.dropLast_concat]
      simp only [hw, bind, Except.bind, if_neg hc, if_pos hl]
    rw [makeDirectory_of_not_locate hloc, isDirectory_of_not_locate hloc, if_pos hl]
    exact .inr ⟨_, by decide, rfl, rfl⟩
  · have hloc : t.locate (names ++ [c]) = .ok (p ++ [c]) := by
      rw [locate_concat t names hc (Nat.not_lt.mp hl), hw]
      rfl
    rw [makeDirectory_of_locate hloc, isDirectory_of_locate hloc, if_neg hl]
    cases hf : t.find? (p ++ [c]) with
    | none => exact .inl ⟨_, rfl, rfl⟩
    | some e => cases e <;> exact .inr ⟨_, by decide, rfl, rfl⟩

/-- **Directories are made one after another** from where the way leads down. -/
theorem Grounded.makeDirectoriesFrom_eq (hg : t.Grounded) {before names : List String} {top : Place}
    (hb : t.walk [] before = .ok top) (hn : ".." ∉ names) {above : Nat} (ha : names.length ≤ above) :
    t.makeDirectoriesFrom (before ++ names) above = t.pave top names := by
  have htop := hg.find?_of_walk t.find?_top hb
  induction names using List.reverseRecOn generalizing above with
  | nil =>
    rw [List.append_nil]
    exact makeDirectoriesFrom_of_directory (locate_of_walk hb) htop above
  | append_singleton rest c ih =>
    obtain ⟨hrest, hc⟩ : ".." ∉ rest ∧ c ≠ ".." := by simpa [eq_comm] using hn
    obtain ⟨above, rfl⟩ : ∃ k, above = k + 1 := ⟨above - 1, by simp at ha; omega⟩
    have ih : t.makeDirectoriesFrom (before ++ rest) above = t.pave top rest :=
      ih hrest (by simpa using ha)
    have hwalk : t.walk [] (before ++ rest) = t.walk top rest := by
      rw [walk_append, hb]
      rfl
    rw [← List.append_assoc, makeDirectoriesFrom, pave_concat]
    cases hw : t.walk top rest with
    | ok q =>
      obtain ⟨rfl, -⟩ := (walk_eq_ok hg hrest htop).mp hw
      rw [pave_of_walk hrest hw]
      dsimp only
      rcases makeDirectory_concat (hwalk.trans hw) hc with ⟨u, hu, hp⟩ | ⟨e, he, hu, hp⟩
      · rw [hu, hp]
      · rw [hu, hp]
        cases e <;> first | rfl | exact absurd rfl he
    | error e =>
      have hloc := t.locate_of_walk_error (hwalk.trans hw) c
      rw [makeDirectory_of_not_locate hloc]
      by_cases he : e = .notFound
      · subst he
        have hmissing := hg.pave_of_missing hrest hw
        have hmade := walk_of_pave (t := t) hrest (p := top)
        have hbefore : (t.pave top rest).1.walk [] before = .ok top :=
          walk_mono (fun p => find?_pave) hb
        dsimp only
        rw [List.dropLast_concat, ih]
        cases hp : t.pave top rest with
        | mk u e =>
          rw [hp] at hmissing hmade hbefore
          rcases hmissing with rfl | rfl
          · -- The way is there now, so the last directory is made or is there.
            have hu : u.walk [] (before ++ rest) = .ok (top ++ rest) := by
              rw [walk_append, hbefore]
              exact hmade rfl
            dsimp only
            rcases makeDirectory_concat hu hc with ⟨v, hv, hp⟩ | ⟨e, -, hv, hp⟩ <;> rw [hv, hp]
          · rfl
      · have := pave_of_blocked hrest hw he c
        rw [pave_concat] at this
        rw [this, isDirectory_of_not_locate hloc]
        cases e <;> first | rfl | exact absurd rfl he

end Tree

/-! ### The places of payloads -/

/-- A name under which payloads can be staged: it stays in its folder, and is not too long for a file. -/
structure Proper (name : String) : Prop where
  slash : '/' ∉ name.toList
  short : Tree.Short (fileName name)

/-- A container's name is one. -/
theorem proper_of_checkName {name : String} (h : Container.checkName name = .ok ()) : Proper name where
  slash := not_slash_of_checkName h
  short := by
    have hlen : (Text.utf8 name).length ≤ Container.maxNameLength := by
      unfold Container.checkName at h
      cases hn : name.toList with
      | nil => simp [Text.utf8, Text.utf8Chars, hn]
      | cons c r =>
        rw [hn] at h
        simp only at h
        split at h
        · cases h
        · rename_i hl
          exact Nat.not_lt.mp hl
    have happ : Text.utf8 (fileName name) = Text.utf8 name ++ Text.utf8 ".json" := by
      simp [Text.utf8, Text.utf8Chars, fileName]
    have hext : (Text.utf8 ".json").length = 5 := by decide
    unfold Tree.Short
    rw [happ, List.length_append, hext]
    exact Nat.le_trans (Nat.add_le_add_right hlen 5) (by decide)

/-- A staging root: the names up to its last `..`, those after that, and where the first lead. -/
structure Site (root : String) where
  before : List String
  after : List String
  top : Place
  split : components root = before ++ after
  down : ".." ∉ after

namespace Site

open RunDispatch.Staging.Tree (Short)

variable {root : String} (site : Site root)

def way (kind : PayloadKind) : List String := site.after ++ [dataFolder, kind.folder]

def place (kind : PayloadKind) (name : String) : Place :=
  site.top ++ site.way kind ++ [fileName name]

/-- Whether a site is as it is thought to be: its top is a directory where the names say. -/
structure Stands (t : Tree) : Prop where
  grounded : t.Grounded
  top : t.walk [] site.before = .ok site.top

/-- Whether a place is on the way to the folder of a kind. -/
def OnWay (p : Place) : Prop := ∃ kind, p <+: site.top ++ site.way kind

theorem way_down (kind : PayloadKind) : ".." ∉ site.way kind := by
  rw [way, List.mem_append, not_or]
  exact ⟨site.down, by cases kind <;> decide⟩

theorem place_injective {a b : PayloadKind} {name other : String}
    (h : site.place a name = site.place b other) : a = b ∧ name = other := by
  simp only [place, way, List.append_assoc, List.append_cancel_left_eq, List.cons_append, List.nil_append,
    List.cons.injEq, and_true, true_and] at h
  exact ⟨PayloadKind.folder_injective h.1, fileName_injective h.2⟩

theorem not_onWay_place (kind : PayloadKind) (name : String) : ¬ site.OnWay (site.place kind name) := by
  rintro ⟨other, h⟩
  have := h.length_le
  simp [place, way] at this

theorem place_ne_nil (kind : PayloadKind) (name : String) : site.place kind name ≠ [] := by
  simp [place]

variable {site} {t : Tree} {kind : PayloadKind} {name : String}

theorem Stands.find?_top (h : site.Stands t) : t.find? site.top = some .directory :=
  h.grounded.find?_of_walk t.find?_top h.top

theorem Stands.mono {u : Tree} (h : site.Stands t) (hg : u.Grounded)
    (hk : ∀ p, t.find? p = some .directory → u.find? p = some .directory) : site.Stands u :=
  ⟨hg, Tree.walk_mono hk h.top⟩

theorem Stands.walk_way (h : site.Stands t) :
    t.walk site.top (site.way kind) = .ok (site.top ++ site.way kind) ↔
    (∀ c ∈ site.way kind, Short c) ∧ t.find? (site.top ++ site.way kind) = some .directory := by
  rw [Tree.walk_eq_ok h.grounded (site.way_down kind) h.find?_top]
  exact and_iff_right rfl

theorem Stands.locate (h : site.Stands t) (hn : Proper name) :
    t.locate (components (pathFor root kind name)) =
      (t.walk site.top (site.way kind)).map (· ++ [fileName name]) := by
  have hc : components (pathFor root kind name) =
      site.before ++ site.way kind ++ [fileName name] := by
    rw [components_pathFor root kind hn.slash, site.split, way]
    simp
  rw [hc, Tree.locate_concat t _ (fileName_ne (by decide)) hn.short, Tree.walk_append, h.top]
  rfl

theorem Stands.locate_eq_ok (h : site.Stands t) (hn : Proper name) {p : Place} :
    t.locate (components (pathFor root kind name)) = .ok p ↔
      p = site.place kind name ∧ t.walk site.top (site.way kind) = .ok (site.top ++ site.way kind) := by
  rw [h.locate hn]
  constructor
  · intro hp
    cases hw : t.walk site.top (site.way kind) with
    | error e =>
      rw [hw] at hp
      cases hp
    | ok q =>
      obtain ⟨rfl, -⟩ := (Tree.walk_eq_ok h.grounded (site.way_down kind) h.find?_top).mp hw
      rw [hw] at hp
      cases hp
      exact ⟨rfl, rfl⟩
  · rintro ⟨rfl, hw⟩
    rw [hw]
    rfl

/-- **What lies at a payload's path** is what lies at its place, if the path can be followed at all. -/
theorem Stands.entryAt_eq_some (h : site.Stands t) (hn : Proper name) {e : Entry} :
    t.entryAt (pathFor root kind name) = some e ↔
      Tree.namesOf (pathFor root kind name) = .ok (components (pathFor root kind name)) ∧
      (∀ c ∈ site.way kind, Short c) ∧ t.find? (site.place kind name) = some e := by
  rw [Tree.entryAt_eq_some]
  constructor
  · rintro ⟨names, p, hnames, hp, he⟩
    obtain rfl := Disk.eq_of_namesOf hnames
    obtain ⟨rfl, hw⟩ := (h.locate_eq_ok hn).mp hp
    exact ⟨hnames, (h.walk_way.mp hw).1, he⟩
  · rintro ⟨hnames, hs, he⟩
    exact ⟨_, _, hnames,
      (h.locate_eq_ok hn).mpr ⟨rfl, h.walk_way.mpr ⟨hs, h.grounded _ _ _ he⟩⟩, he⟩

end Site

end RunDispatch.Staging
