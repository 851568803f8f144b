/-
# Clearing the paths of payloads

Files at several paths are removed in order, and the first failure ends it, unless there was nothing to
remove. What each removal comes to can be read off the tree as it is at first, with the faults in turn:
the removal of one payload leaves the other payloads as they are, be they there, missing, or out of reach.
For no way leads through a payload, and only directories lead on.

So a clearing is told by its survey, which lists what each removal comes to on that tree. The paths before
the first failure are cleared, those from there on are left, and no other place is touched. Two clearings
of different payloads come to the same in either order.

Key definitions: `PayloadKey`, `strip`, `clear`, `survey`, `isFine`, `Truthful`, `verdict`, `taken`.
Key theorems: `unstageKinds_clear`, `entryAt_strip_apart`, `remove_strip_apart`, `strip_comm`, `clear_eq`.
-/
import Mathlib.Data.List.TakeWhile
import RunDispatch.Proofs.Staging.Released

namespace RunDispatch.Staging

open RunDispatch.Staging.Tree (namesOf)

/-! ### Clearing -/

/-- Removes the files at paths in order; one that is missing is fine, any other failure ends it. Counts
those that went. -/
def clear (d : Disk) (removed : Nat) : List String → Disk × Except StagingError Nat
  | [] => (d, .ok removed)
  | path :: rest =>
    match d.remove path with
    | (d, none) => clear d (removed + 1) rest
    | (d, some .notFound) => clear d removed rest
    | (d, some e) => (d, .error (.of .remove path e))

theorem unstageKinds_clear (root name : String) (d : Disk) (removed : Nat) (kinds : List PayloadKind) :
    unstageKinds root name d removed kinds = clear d removed (kinds.map (pathFor root · name)) := by
  induction kinds generalizing d removed with
  | nil => rfl
  | cons kind rest ih =>
    simp only [unstageKinds, List.map_cons, clear]
    rcases d.remove (pathFor root kind name) with ⟨d, o⟩
    cases o with
    | none => exact ih d _
    | some e => cases e <;> first | exact ih d _ | rfl

theorem clear_append (d : Disk) (removed : Nat) (a b : List String) :
    clear d removed (a ++ b) =
      match clear d removed a with
      | (d, .ok n) => clear d n b
      | (d, .error e) => (d, .error e) := by
  induction a generalizing d removed with
  | nil => rfl
  | cons path rest ih =>
    simp only [List.cons_append, clear]
    split <;> simp only [ih]

theorem clear_add (d : Disk) (before removed : Nat) (paths : List String) :
    clear d (before + removed) paths =
      ((clear d removed paths).1, (clear d removed paths).2.map (before + ·)) := by
  induction paths generalizing d removed with
  | nil => rfl
  | cons path rest ih =>
    simp only [clear]
    split
    · rw [Nat.add_assoc, ih]
    · rw [ih]
    · rfl

/-! ### One payload and another -/

/-- A payload by its kind and the name it is staged under. -/
abbrev PayloadKey := PayloadKind × String

def PayloadKey.path (root : String) (k : PayloadKey) : String := pathFor root k.1 k.2

def strip (t : Tree) (path : String) : Tree := ((Disk.sound t).remove path).1.tree

section Strip

variable {t : Tree} {path : String} {p : Place}

theorem strip_file {c : Bytes} (h : t.LeadsTo path p) (hc : t.find? p = some (.file c)) :
    strip t path = t.erase p := by
  rw [strip, remove_file h hc]
  rfl

theorem strip_nothing (h : ∀ c, t.entryAt path ≠ some (.file c)) : strip t path = t := by
  rcases Disk.remove_cases (d := .sound t) rfl path with ⟨hr, -⟩ | ⟨p, c, hp, hc, ⟨names, hn⟩, -⟩
  · rw [strip, hr]
    rfl
  · have leads : t.LeadsTo path p := ⟨names, hn, by rwa [Disk.eq_of_namesOf hn]⟩
    exact absurd ((Tree.entryAt_of_leadsTo leads).trans hc) (h c)

theorem strip_cases (t : Tree) (path : String) :
    (strip t path = t ∧ ∀ c, t.entryAt path ≠ some (.file c)) ∨
      ∃ p c, t.LeadsTo path p ∧ t.find? p = some (.file c) ∧ strip t path = t.erase p := by
  by_cases h : ∃ c, t.entryAt path = some (.file c)
  · obtain ⟨c, hc⟩ := h
    obtain ⟨p, leads, hc⟩ := Tree.leadsTo_of_entryAt hc
    exact .inr ⟨p, c, leads, hc, strip_file leads hc⟩
  · have h := not_exists.mp h
    exact .inl ⟨strip_nothing h, h⟩

theorem find?_strip_directory (t : Tree) (path : String) (q : Place) :
    (strip t path).find? q = some .directory ↔ t.find? q = some .directory := by
  rcases strip_cases t path with ⟨h, -⟩ | ⟨p, c, -, hc, h⟩ <;> rw [h]
  exact Tree.find?_erase_directory hc q

theorem leadsTo_strip (t : Tree) (path other : String) (q : Place) :
    (strip t path).LeadsTo other q ↔ t.LeadsTo other q :=
  Tree.leadsTo_congr (find?_strip_directory t path) other q

theorem find?_strip (h : ¬ t.LeadsTo path p) : (strip t path).find? p = t.find? p := by
  rcases strip_cases t path with ⟨hs, -⟩ | ⟨q, c, leads, -, hs⟩ <;> rw [hs]
  rw [Tree.find?_erase, if_neg]
  rintro ⟨rfl, -⟩
  exact h leads

theorem entryAt_of_missing (h : ((Disk.sound t).remove path).2 = some .notFound) :
    t.entryAt path = none := by
  refine Option.eq_none_iff_forall_ne_some.mpr fun e he => ?_
  obtain ⟨p, ⟨names, hn, hp⟩, he⟩ := Tree.leadsTo_of_entryAt he
  rw [remove_sound_eq] at h
  cases e <;> simp [hn, bind, Except.bind, pure, Except.pure, Tree.remove, hp, he] at h

theorem entryAt_strip_self (h : t.entryAt path ≠ some .directory) : (strip t path).entryAt path = none :=
  entryAt_remove (d := .sound t) rfl h

end Strip

section Apart

variable {t : Tree} {root : String} {k l : PayloadKey}

/-- The place of a payload is below the folder of all staged files. -/
theorem place_under {p : Place} (hk : '/' ∉ k.2.toList) (h : t.LeadsTo (k.path root) p) :
    ∃ dir, t.walk [] (components root ++ [dataFolder]) = .ok dir ∧
      p = dir ++ [k.1.folder, fileName k.2] := by
  obtain ⟨names, hn, hp⟩ := h
  rw [Disk.eq_of_namesOf hn, PayloadKey.path, components_pathFor root k.1 hk] at hp
  have split : components root ++ [dataFolder, k.1.folder, fileName k.2] =
      components root ++ [dataFolder] ++ [k.1.folder] ++ [fileName k.2] := by simp
  rw [split, Tree.locate, List.getLast?_concat, List.dropLast_concat] at hp
  obtain ⟨above, habove, hp⟩ := ok_of_bind hp
  rw [if_neg (fileName_ne (by decide))] at hp
  obtain ⟨dir, hdir, rfl⟩ := Tree.walk_concat (by cases k.1 <;> decide) habove
  refine ⟨dir, hdir, ?_⟩
  split at hp
  · cases hp
  · cases hp
    simp

/-- **Different payloads lead to different places.** -/
theorem not_leadsTo_payloads {p : Place} (hk : '/' ∉ k.2.toList) (hl : '/' ∉ l.2.toList) (hne : k ≠ l)
    (h : t.LeadsTo (k.path root) p) : ¬ t.LeadsTo (l.path root) p := by
  intro h'
  obtain ⟨dir, -, rfl⟩ := place_under hk h
  obtain ⟨dir', -, he⟩ := place_under hl h'
  obtain ⟨hfolder, hfile⟩ := List.cons.inj (List.append_inj_right' he rfl)
  obtain ⟨hfile, -⟩ := List.cons.inj hfile
  exact hne (Prod.ext (PayloadKind.folder_injective hfolder) (fileName_injective hfile))

/-- The way to a payload comes to the same when another payload is stripped. -/
theorem locate_strip (hk : '/' ∉ k.2.toList) (hl : '/' ∉ l.2.toList) :
    (strip t (k.path root)).locate (components (l.path root)) =
      t.locate (components (l.path root)) := by
  rcases strip_cases t (k.path root) with ⟨h, -⟩ | ⟨p, c, leads, hc, h⟩ <;> rw [h]
  obtain ⟨dir, hdir, rfl⟩ := place_under hk leads
  have split : components (l.path root) =
      (components root ++ [dataFolder]) ++ [l.1.folder] ++ [fileName l.2] := by
    rw [PayloadKey.path, components_pathFor root l.1 hl]
    simp
  have up := (Tree.walk_congr (Tree.find?_erase_directory hc) _ _ _).mpr hdir
  -- The folder of the other payload is not below the one that is stripped.
  have down : (t.erase (dir ++ [k.1.folder, fileName k.2])).find? (dir ++ [l.1.folder]) =
      t.find? (dir ++ [l.1.folder]) := by
    rw [Tree.find?_erase, if_neg]
    rintro ⟨he, -⟩
    have := congrArg List.length he
    simp at this
  have same : (t.erase (dir ++ [k.1.folder, fileName k.2])).walk []
      ((components root ++ [dataFolder]) ++ [l.1.folder]) =
      t.walk [] ((components root ++ [dataFolder]) ++ [l.1.folder]) := by
    rw [Tree.walk_append _ _ (components root ++ [dataFolder]), up,
      Tree.walk_append _ _ (components root ++ [dataFolder]), hdir]
    simp only [bind, Except.bind, Tree.walk, down]
  rw [split, Tree.locate, Tree.locate, List.getLast?_concat, List.dropLast_concat, same]

theorem find?_strip_payload (hk : '/' ∉ k.2.toList) (hl : '/' ∉ l.2.toList) (hne : k ≠ l) {p : Place}
    (h : t.LeadsTo (l.path root) p) : (strip t (k.path root)).find? p = t.find? p :=
  find?_strip fun h' => not_leadsTo_payloads hk hl hne h' h

/-- What lies at the path of a payload is what lies there when another payload is stripped. -/
theorem entryAt_strip_apart (hk : '/' ∉ k.2.toList) (hl : '/' ∉ l.2.toList) (hne : k ≠ l) :
    (strip t (k.path root)).entryAt (l.path root) = t.entryAt (l.path root) := by
  refine Option.ext fun e => ?_
  constructor
  · intro h
    obtain ⟨p, leads, he⟩ := Tree.leadsTo_of_entryAt h
    rw [leadsTo_strip] at leads
    rw [Tree.entryAt_of_leadsTo leads, ← find?_strip_payload hk hl hne leads, he]
  · intro h
    obtain ⟨p, leads, he⟩ := Tree.leadsTo_of_entryAt h
    rw [Tree.entryAt_of_leadsTo ((leadsTo_strip _ _ _ _).mpr leads),
      find?_strip_payload hk hl hne leads, he]

theorem remove_strip_apart (hk : '/' ∉ k.2.toList) (hl : '/' ∉ l.2.toList) (hne : k ≠ l) :
    ((Disk.sound (strip t (k.path root))).remove (l.path root)).2 =
      ((Disk.sound t).remove (l.path root)).2 := by
  rw [remove_sound_eq, remove_sound_eq]
  cases hn : namesOf (l.path root) with
  | error e => rfl
  | ok names =>
    have hp : (strip t (k.path root)).locate names = t.locate names := by
      rw [Disk.eq_of_namesOf hn]
      exact locate_strip hk hl
    cases hq : t.locate names with
    | error e =>
      simp only [bind, Except.bind, Tree.remove, hp, hq]
    | ok q =>
      have hf := find?_strip_payload hk hl hne ⟨names, hn, hq⟩
      simp only [bind, Except.bind, Tree.remove, hp, hq, hf]
      cases t.find? q with
      | none => rfl
      | some e => cases e <;> rfl

/-- **Two payloads are stripped in either order.** -/
theorem strip_comm (hk : '/' ∉ k.2.toList) (hl : '/' ∉ l.2.toList) (hne : k ≠ l) :
    strip (strip t (k.path root)) (l.path root) = strip (strip t (l.path root)) (k.path root) := by
  have hkl : (strip t (k.path root)).entryAt (l.path root) = t.entryAt (l.path root) :=
    entryAt_strip_apart hk hl hne
  have hlk : (strip t (l.path root)).entryAt (k.path root) = t.entryAt (k.path root) :=
    entryAt_strip_apart hl hk hne.symm
  rcases strip_cases t (k.path root) with ⟨h, no⟩ | ⟨p, c, leads, hc, h⟩
  · rw [h, strip_nothing fun c hc => no c (hlk ▸ hc)]
  rcases strip_cases t (l.path root) with ⟨h', no⟩ | ⟨q, c', leads', hc', h'⟩
  · rw [h', strip_nothing fun c hc => no c (hkl ▸ hc)]
  · have there : (t.erase p).find? q = some (.file c') := by
      rw [← h, find?_strip_payload hk hl hne leads', hc']
    have there' : (t.erase q).find? p = some (.file c) := by
      rw [← h', find?_strip_payload hl hk hne.symm leads, hc]
    rw [h, h', strip_file (h ▸ (leadsTo_strip ..).mpr leads') there,
      strip_file (h' ▸ (leadsTo_strip ..).mpr leads) there']
    simp only [Tree.erase, List.filter_filter, Bool.and_comm]

end Apart

/-! ### The survey of a disk -/

/-- What the removal of each path comes to, on the tree as it is and with the faults in turn. -/
def survey (d : Disk) : List String → List (String × Option OsError)
  | [] => []
  | path :: rest => (path, (d.remove path).2) :: survey (d.after d.tree) rest

/-- Whether a clearing goes on after a removal. -/
def isFine : Option OsError → Bool
  | none | some .notFound => true
  | some _ => false

theorem isFine_iff {o : Option OsError} : isFine o = true ↔ o = none ∨ o = some .notFound := by
  cases o with
  | none => simp [isFine]
  | some e => cases e <;> simp [isFine]

/-- Whether a disk says that there is nothing to remove only where that is so by its tree. -/
def Truthful (d : Disk) (paths : List String) : Prop :=
  ∀ x ∈ survey d paths, x.2 = some .notFound → ((Disk.sound d.tree).remove x.1).2 = some .notFound

/-- The result of a clearing, by what each removal comes to. -/
def verdict (removed : Nat) : List (String × Option OsError) → Except StagingError Nat
  | [] => .ok removed
  | (_, none) :: rest => verdict (removed + 1) rest
  | (_, some .notFound) :: rest => verdict removed rest
  | (path, some e) :: _ => .error (.of .remove path e)

/-- The paths before the first failure whose removal succeeds. -/
def taken (found : List (String × Option OsError)) : List String :=
  ((found.takeWhile (isFine ·.2)).filter (·.2.isNone)).map Prod.fst

theorem map_fst_survey (d : Disk) (paths : List String) : (survey d paths).map Prod.fst = paths := by
  induction paths generalizing d with
  | nil => rfl
  | cons path rest ih => rw [survey, List.map_cons, ih]

@[simp] theorem Disk.tree_after (d : Disk) (t : Tree) : (d.after t).tree = t := rfl

theorem Disk.after_mk (t t' : Tree) (faults : List (Option Fault)) :
    Disk.after ⟨t, faults⟩ t' = ⟨t', faults.tail⟩ := rfl

theorem Disk.mem_faults {d : Disk} {f : Fault} (h : d.fault = some f) : some f ∈ d.faults := by
  obtain ⟨t, faults⟩ := d
  cases faults with
  | nil => cases h
  | cons g rest =>
    obtain rfl : g = some f := h
    exact List.mem_cons_self

theorem remove_eq_strip (d : Disk) (path : String) :
    d.remove path =
      match d.fault with
      | some f => (d.after d.tree, some f.error)
      | none => (d.after (strip d.tree path), ((Disk.sound d.tree).remove path).2) := by
  cases h : d.fault with
  | some f => simp only [Disk.remove, Disk.turn_eq, h]
  | none =>
    refine Prod.ext (Disk.remove_of_clear h path) ?_
    have turn : d.turn = (none, d.after d.tree) := by rw [Disk.turn_eq, h]
    rw [remove_sound_eq]
    simp only [Disk.remove, turn, Disk.tree_after]
    cases namesOf path >>= d.tree.remove <;> rfl

theorem remove_result (t : Tree) (faults : List (Option Fault)) (path : String) :
    (Disk.remove ⟨t, faults⟩ path).2 =
      match faults.head?.join with
      | some f => some f.error
      | none => ((Disk.sound t).remove path).2 := by
  rw [remove_eq_strip, Disk.fault]
  cases faults.head?.join <;> rfl

theorem remove_of_none {d : Disk} {path : String} (h : (d.remove path).2 = none) :
    (d.remove path).1 = d.after (strip d.tree path) := by
  rw [remove_eq_strip] at h ⊢
  cases hf : d.fault with
  | none => rfl
  | some f => simp [hf] at h

theorem remove_of_some {d : Disk} {path : String} {e : OsError} (h : (d.remove path).2 = some e) :
    (d.remove path).1 = d.after d.tree := by
  rw [remove_eq_strip] at h ⊢
  cases hf : d.fault with
  | some f => rfl
  | none =>
    rw [hf] at h
    have nothing : strip d.tree path = d.tree := by
      refine strip_nothing fun c hc => ?_
      have gone := remove_eq_none_iff.mpr
        (Option.isSome_iff_exists.mpr ⟨c, Tree.contentAt_eq_some.mpr hc⟩)
      simp [gone] at h
    rw [nothing]

/-- A disk whose faults never say so is truthful. -/
theorem truthful_of_faults {d : Disk} (h : ∀ f, some f ∈ d.faults → f.error ≠ .notFound)
    (paths : List String) : Truthful d paths := by
  induction paths generalizing d with
  | nil => nofun
  | cons path rest ih =>
    have later := ih (d := d.after d.tree) fun f hf => h f (List.mem_of_mem_tail hf)
    intro x hx hmissing
    rcases List.mem_cons.mp hx with rfl | hx
    · rw [remove_eq_strip] at hmissing
      cases hf : d.fault with
      | none => rwa [hf] at hmissing
      | some f =>
        rw [hf] at hmissing
        exact absurd (Option.some.inj hmissing) (h f (Disk.mem_faults hf))
    · exact later x hx hmissing

section Surveys

variable {root : String} {keys : List PayloadKey} {d : Disk}

theorem remove_apart {k l : PayloadKey} (hk : '/' ∉ k.2.toList) (hl : '/' ∉ l.2.toList) (hne : k ≠ l)
    (t : Tree) (faults : List (Option Fault)) :
    (Disk.remove ⟨strip t (k.path root), faults⟩ (l.path root)).2 =
      (Disk.remove ⟨t, faults⟩ (l.path root)).2 := by
  rw [remove_result, remove_result t faults, remove_strip_apart hk hl hne]

theorem survey_strip {k : PayloadKey} (hk : '/' ∉ k.2.toList) (hkeys : ∀ l ∈ keys, '/' ∉ l.2.toList)
    (hnew : k ∉ keys) (t : Tree) (faults : List (Option Fault)) :
    survey ⟨strip t (k.path root), faults⟩ (keys.map (·.path root)) =
      survey ⟨t, faults⟩ (keys.map (·.path root)) := by
  induction keys generalizing faults with
  | nil => rw [List.map_nil, survey, survey]
  | cons l rest ih =>
    have hne : k ≠ l := fun h => hnew (h ▸ List.mem_cons_self)
    have hl := hkeys l List.mem_cons_self
    have tail := ih (fun m hm => hkeys m (List.mem_cons_of_mem _ hm))
      (fun h => hnew (List.mem_cons_of_mem _ h)) faults.tail
    rw [List.map_cons, survey, survey, remove_apart hk hl hne, Disk.after_mk, Disk.after_mk, tail]

/-- A clearing is told by its survey: the tree is stripped of the paths whose removal succeeds, up to the
first failure, and the result is what the survey says. -/
theorem clear_eq (hkeys : ∀ k ∈ keys, '/' ∉ k.2.toList) (hnodup : keys.Nodup) (d : Disk) (removed : Nat) :
    (clear d removed (keys.map (·.path root))).1.tree =
        (taken (survey d (keys.map (·.path root)))).foldl strip d.tree ∧
      (clear d removed (keys.map (·.path root))).2 =
        verdict removed (survey d (keys.map (·.path root))) := by
  induction keys generalizing d removed with
  | nil => exact ⟨rfl, rfl⟩
  | cons k rest ih =>
    obtain ⟨hnew, hnodup⟩ := List.nodup_cons.mp hnodup
    have hrest : ∀ l ∈ rest, '/' ∉ l.2.toList := fun l hl => hkeys l (List.mem_cons_of_mem k hl)
    have goesOn := fun d => ih hrest hnodup d
    simp only [List.map_cons, clear, survey]
    cases ho : (d.remove (k.path root)).2 with
    | none =>
      have strips := remove_of_none ho
      -- What comes later does not depend on this payload.
      have same : survey (d.after (strip d.tree (k.path root))) (rest.map (·.path root)) =
          survey (d.after d.tree) (rest.map (·.path root)) :=
        survey_strip (hkeys k List.mem_cons_self) hrest hnew _ _
      have next := goesOn (d.after (strip d.tree (k.path root))) (removed + 1)
      rw [same, Disk.tree_after] at next
      have begins : taken ((k.path root, none) :: survey (d.after d.tree) (rest.map (·.path root))) =
          k.path root :: taken (survey (d.after d.tree) (rest.map (·.path root))) := by
        simp [taken, isFine]
      rw [begins, List.foldl_cons]
      generalize d.remove (k.path root) = r at ho strips
      obtain ⟨d', o⟩ := r
      obtain rfl : o = _ := ho
      obtain rfl : d' = _ := strips
      exact next
    | some e =>
      have stays := remove_of_some ho
      have next := goesOn (d.after d.tree) removed
      rw [Disk.tree_after] at next
      generalize d.remove (k.path root) = r at ho stays
      obtain ⟨d', o⟩ := r
      obtain rfl : o = _ := ho
      obtain rfl : d' = _ := stays
      cases e with
      | notFound => simpa [taken, isFine, verdict] using next
      | _ => simp [taken, isFine, verdict]

end Surveys

/-! ### Trees that were stripped -/

section Stripped

variable {t : Tree} {paths : List String} {p : Place}

theorem find?_stripped (h : ∀ path ∈ paths, ¬ t.LeadsTo path p) :
    (paths.foldl strip t).find? p = t.find? p := by
  induction paths generalizing t with
  | nil => rfl
  | cons first rest ih =>
    rw [List.foldl_cons, ih, find?_strip (h first List.mem_cons_self)]
    intro path hpath leads
    exact h path (List.mem_cons_of_mem first hpath) ((leadsTo_strip ..).mp leads)

theorem entryAt_of_strip {path other : String} {e : Entry} (h : (strip t path).entryAt other = some e) :
    t.entryAt other = some e := by
  rcases strip_cases t path with ⟨hs, -⟩ | ⟨p, c, -, hc, hs⟩ <;> rw [hs] at h
  · exact h
  · exact ((Tree.entryAt_erase hc).mp h).1

theorem entryAt_of_stripped {path : String} {e : Entry}
    (h : (paths.foldl strip t).entryAt path = some e) : t.entryAt path = some e := by
  induction paths generalizing t with
  | nil => exact h
  | cons first rest ih => exact entryAt_of_strip (ih h)

theorem entryAt_stripped {path : String} (hpath : path ∈ paths) (h : t.entryAt path ≠ some .directory) :
    (paths.foldl strip t).entryAt path = none := by
  induction paths generalizing t with
  | nil => cases hpath
  | cons first rest ih =>
    rcases List.mem_cons.mp hpath with rfl | hpath
    · refine Option.eq_none_iff_forall_ne_some.mpr fun e he => ?_
      have before := entryAt_of_stripped (List.foldl_cons (f := strip) .. ▸ he)
      rw [entryAt_strip_self h] at before
      cases before
    · exact ih hpath fun hd => h (entryAt_of_strip hd)

theorem entryAt_stripped_apart {root : String} {keys : List PayloadKey} {l : PayloadKey}
    (hkeys : ∀ k ∈ keys, '/' ∉ k.2.toList) (hl : '/' ∉ l.2.toList) (hnew : l ∉ keys) :
    ((keys.map (·.path root)).foldl strip t).entryAt (l.path root) = t.entryAt (l.path root) := by
  induction keys generalizing t with
  | nil => rfl
  | cons k rest ih =>
    have hne : k ≠ l := fun h => hnew (h ▸ List.mem_cons_self)
    rw [List.map_cons, List.foldl_cons, ih (fun m hm => hkeys m (List.mem_cons_of_mem k hm))
      fun h => hnew (List.mem_cons_of_mem k h)]
    exact entryAt_strip_apart (hkeys k List.mem_cons_self) hl hne

theorem survey_stripped {root : String} {a b : List PayloadKey} (ha : ∀ k ∈ a, '/' ∉ k.2.toList)
    (hb : ∀ k ∈ b, '/' ∉ k.2.toList) (hab : ∀ k ∈ a, k ∉ b) (t : Tree) (faults : List (Option Fault)) :
    survey ⟨(a.map (·.path root)).foldl strip t, faults⟩ (b.map (·.path root)) =
      survey ⟨t, faults⟩ (b.map (·.path root)) := by
  induction a generalizing t with
  | nil => rfl
  | cons k rest ih =>
    rw [List.map_cons, List.foldl_cons, ih (fun l hl => ha l (List.mem_cons_of_mem k hl))
      fun l hl => hab l (List.mem_cons_of_mem k hl)]
    exact survey_strip (ha k List.mem_cons_self) hb (hab k List.mem_cons_self) t faults

theorem removable_stripped {path : String} (h : Removable t path) :
    Removable (paths.foldl strip t) path := by
  induction paths generalizing t with
  | nil => exact h
  | cons first rest ih =>
    refine ih ?_
    rw [strip]
    exact h.remove first

theorem stripped_comm {root : String} {a b : List PayloadKey} (ha : ∀ k ∈ a, '/' ∉ k.2.toList)
    (hb : ∀ k ∈ b, '/' ∉ k.2.toList) (t : Tree) :
    (b.map (·.path root)).foldl strip ((a.map (·.path root)).foldl strip t) =
      (a.map (·.path root)).foldl strip ((b.map (·.path root)).foldl strip t) := by
  have all : ∀ k ∈ a ++ b, '/' ∉ k.2.toList := fun k hk => (List.mem_append.mp hk).elim (ha k) (hb k)
  simp only [← List.foldl_append, List.foldl_map]
  refine List.Perm.foldl_eq' List.perm_append_comm (fun k hk l hl t => ?_) t
  by_cases h : k = l
  · rw [h]
  · exact strip_comm (all k hk) (all l hl) h

end Stripped

/-! ### Results -/

section Results

variable {d : Disk} {paths : List String} {found a b : List (String × Option OsError)}
  {path : String} {o : Option OsError} {x : String × Option OsError}

/-- Either every removal is fine, or there is a first that fails. -/
theorem fine_or_first (found : List (String × Option OsError)) :
    (∀ x ∈ found, isFine x.2 = true) ∨
      ∃ a path e b, found = a ++ (path, some e) :: b ∧ (∀ x ∈ a, isFine x.2 = true) ∧ e ≠ .notFound := by
  cases h : found.find? (fun x => !isFine x.2) with
  | none => exact .inl fun x hx => by simpa using List.find?_eq_none.mp h x hx
  | some x =>
    obtain ⟨hx, a, b, hfound, ha⟩ := List.find?_eq_some_iff_append.mp h
    obtain ⟨path, o⟩ := x
    cases o with
    | none => cases hx
    | some e =>
      refine .inr ⟨a, path, e, b, hfound, fun x hx => by simpa using ha x hx, ?_⟩
      rintro rfl
      cases hx

theorem taken_sublist (found : List (String × Option OsError)) :
    (taken found).Sublist (found.map Prod.fst) :=
  ((List.filter_sublist).trans (List.takeWhile_sublist _)).map Prod.fst

theorem taken_of_fine (h : ∀ x ∈ found, isFine x.2 = true) :
    taken found = (found.filter (·.2.isNone)).map Prod.fst := by
  rw [taken, List.takeWhile_eq_self_iff.mpr h]

theorem taken_of_first {e : OsError} (ha : ∀ x ∈ a, isFine x.2 = true) (he : e ≠ .notFound) :
    taken (a ++ (path, some e) :: b) = taken a := by
  have stops : isFine (some e) = false := by cases e <;> first | rfl | exact absurd rfl he
  rw [taken_of_fine ha, taken, List.takeWhile_append_of_pos ha, List.takeWhile_cons_of_neg (by simp [stops]),
    List.append_nil]

theorem verdict_of_fine (h : ∀ x ∈ found, isFine x.2 = true) (removed : Nat) :
    verdict removed found = .ok (removed + found.countP fun x => x.2.isNone) := by
  induction found generalizing removed with
  | nil => rfl
  | cons x rest ih =>
    have ih := ih fun y hy => h y (List.mem_cons_of_mem x hy)
    have hx := h x List.mem_cons_self
    obtain ⟨path, o⟩ := x
    cases o with
    | none => simp only [verdict, ih, List.countP_cons]; simp; omega
    | some e =>
      cases e with
      | notFound => simp [verdict, ih]
      | _ => cases hx

theorem verdict_of_first {e : OsError} (ha : ∀ x ∈ a, isFine x.2 = true) (he : e ≠ .notFound)
    (removed : Nat) :
    verdict removed (a ++ (path, some e) :: b) = .error (.of .remove path e) := by
  induction a generalizing removed with
  | nil => cases e <;> first | rfl | exact absurd rfl he
  | cons x rest ih =>
    have ih := ih fun y hy => ha y (List.mem_cons_of_mem x hy)
    have hx := ha x List.mem_cons_self
    obtain ⟨path, o⟩ := x
    cases o with
    | none => exact ih _
    | some e =>
      cases e with
      | notFound => exact ih _
      | _ => cases hx

theorem file_of_mem_survey (hx : x ∈ survey d paths) (h : x.2 = none) :
    ∃ c, d.tree.entryAt x.1 = some (.file c) := by
  induction paths generalizing d with
  | nil => cases hx
  | cons path rest ih =>
    rcases List.mem_cons.mp hx with rfl | hx
    · rw [remove_eq_strip] at h
      cases hf : d.fault with
      | some f => simp [hf] at h
      | none =>
        rw [hf] at h
        obtain ⟨c, hc⟩ := Option.isSome_iff_exists.mp (remove_eq_none_iff.mp h)
        exact ⟨c, Tree.contentAt_eq_some.mp hc⟩
    · exact ih (d := d.after d.tree) hx

/-- Nothing is left at the paths before the first failure. -/
theorem entryAt_cleared (htrue : Truthful d paths) (ha : ∀ x ∈ a, isFine x.2 = true)
    (hx : x ∈ a) (hmem : x ∈ survey d paths) :
    ((taken a).foldl strip d.tree).entryAt x.1 = none := by
  rcases isFine_iff.mp (ha x hx) with hnone | hmissing
  · obtain ⟨c, hc⟩ := file_of_mem_survey hmem hnone
    have hpath : x.1 ∈ taken a := by
      rw [taken_of_fine ha]
      exact List.mem_map_of_mem (List.mem_filter.mpr ⟨hx, by simp [hnone]⟩)
    exact entryAt_stripped hpath (by simp [hc])
  · refine Option.eq_none_iff_forall_ne_some.mpr fun e he => ?_
    have before := entryAt_of_stripped he
    rw [entryAt_of_missing (htrue x hmem hmissing)] at before
    cases before

theorem removable_of_fine (htrue : Truthful d paths) (hx : x ∈ survey d paths)
    (h : isFine x.2 = true) : Removable d.tree x.1 := by
  obtain ⟨path, o⟩ := x
  cases o with
  | none =>
    obtain ⟨c, hc⟩ := file_of_mem_survey hx rfl
    exact .inl (remove_eq_none_iff.mpr (Option.isSome_iff_exists.mpr ⟨c, Tree.contentAt_eq_some.mpr hc⟩))
  | some e =>
    cases e with
    | notFound => exact .inr (htrue _ hx rfl)
    | _ => cases h

/-- Where nothing is left and no fault refuses a removal, all are said to be missing. -/
theorem survey_of_missing {t : Tree} {faults : List (Option Fault)}
    (hmissing : ∀ path ∈ paths, ((Disk.sound t).remove path).2 = some .notFound)
    (hfaults : ∀ f, some f ∈ faults → f.error = .notFound) :
    ∀ x ∈ survey ⟨t, faults⟩ paths, x.2 = some .notFound := by
  induction paths generalizing faults with
  | nil => nofun
  | cons path rest ih =>
    have tail : ∀ x ∈ survey ⟨t, faults.tail⟩ rest, x.2 = some .notFound :=
      ih (fun p hp => hmissing p (List.mem_cons_of_mem path hp))
        fun f hf => hfaults f (List.mem_of_mem_tail hf)
    intro x hx
    rcases List.mem_cons.mp hx with rfl | hx
    · rw [remove_eq_strip]
      cases hf : Disk.fault ⟨t, faults⟩ with
      | none => exact hmissing path List.mem_cons_self
      | some f => exact congrArg some (hfaults f (Disk.mem_faults hf))
    · exact tail x hx

/-- The removals that succeed are those of the paths at which something is. -/
theorem countP_survey (htrue : Truthful d paths) (h : ∀ x ∈ survey d paths, isFine x.2 = true) :
    (survey d paths).countP (fun x => x.2.isNone) =
      paths.countP fun path => (d.tree.entryAt path).isSome := by
  have fst : paths.countP (fun path => (d.tree.entryAt path).isSome) =
      (survey d paths).countP fun x => (d.tree.entryAt x.1).isSome := by
    have whole := map_fst_survey d paths
    generalize survey d paths = found at whole
    rw [← whole, List.countP_map]
    rfl
  rw [fst]
  refine List.countP_congr fun x hx => ?_
  have hfine := h x hx
  obtain ⟨path, o⟩ := x
  cases o with
  | none =>
    obtain ⟨c, hc⟩ := file_of_mem_survey hx rfl
    simp [hc]
  | some e =>
    cases e with
    | notFound => simp [entryAt_of_missing (htrue _ hx rfl)]
    | _ => cases hfine

end Results

end RunDispatch.Staging
