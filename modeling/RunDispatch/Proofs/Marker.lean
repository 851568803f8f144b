/-
# Markers by name

When a marker was set is looked up under its name. Setting, deleting and evicting keep every name at
most once in the table, and then each of them is told by what it does to the look-up: an eviction takes
the expired markers away and leaves the live ones as old as they are.

Key definitions: `Table.Proper`.
Key theorems: `Table.find?_filter`, `Table.find?_keep`, `Markers.find?_set`, `Markers.find?_delete`, `Markers.find?_evict`.
-/
import RunDispatch.Marker

namespace RunDispatch

namespace Table

variable {α : Type}

/-- Whether every name occurs at most once. -/
def Proper (t : Table α) : Prop := (t.map Prod.fst).Nodup

theorem Proper.filter {t : Table α} (h : t.Proper) (p : String × α → Bool) :
    Proper (List.filter p t) := by
  have hs : ((List.filter p t).map Prod.fst).Sublist (t.map Prod.fst) :=
    List.filter_sublist.map Prod.fst
  exact hs.nodup h

theorem Proper.erase {t : Table α} (h : t.Proper) (name : String) : (t.erase name).Proper :=
  h.filter _

theorem Proper.keep {t : Table α} (h : t.Proper) (p : α → Bool) : (t.keep p).Proper :=
  h.filter _

theorem Proper.put {t : Table α} (h : t.Proper) (name : String) (v : α) : (t.put name v).Proper := by
  refine List.nodup_cons.mpr ⟨?_, h.erase name⟩
  simp [Table.erase]

/-- What passes a test in a proper table is found under its name. -/
theorem find?_filter {t : Table α} (h : t.Proper) (p : String × α → Bool) (name : String) :
    find? (List.filter p t) name = (t.find? name).filter fun v => p (name, v) := by
  induction t with
  | nil => rfl
  | cons e rest ih =>
    obtain ⟨n, v⟩ := e
    obtain ⟨hn, hr⟩ := List.nodup_cons.mp h
    have ih := ih hr
    unfold find? at ih ⊢
    by_cases hname : name = n
    · have hnone : List.lookup name rest = none := by
        refine List.lookup_eq_none_iff.mpr fun e he => ?_
        rw [bne_iff_ne]
        intro hc
        have hm : e.1 ∈ rest.map Prod.fst := List.mem_map_of_mem he
        rw [← hc, hname] at hm
        exact hn hm
      rw [hnone] at ih
      subst hname
      cases hp : p (name, v) with
      | true => simp [hp, Option.filter]
      | false =>
        rw [List.filter_cons_of_neg (by simp [hp]), ih]
        simp [hp, Option.filter]
    · have hb : (name == n) = false := by simpa using hname
      cases hp : p (n, v) <;> simp [hp, hb, List.lookup_cons, ih]

theorem find?_keep {t : Table α} (h : t.Proper) (p : α → Bool) (name : String) :
    (t.keep p).find? name = (t.find? name).filter p :=
  find?_filter h _ name

theorem find?_keep_of_find? {t : Table α} {p : α → Bool} {name : String} {v : α}
    (h : t.find? name = some v) (hp : p v = true) : (t.keep p).find? name = some v := by
  obtain ⟨before, after, rfl, hbefore⟩ := List.lookup_eq_some_iff.mp h
  refine List.lookup_eq_some_iff.mpr ⟨keep before p, keep after p, ?_, fun e he => ?_⟩
  · simp [keep, hp]
  · exact hbefore e (List.mem_filter.mp he).1

end Table

namespace Markers

theorem find?_set (m : Markers) (now : Nat) (name n : String) :
    (m.set now name).entries.find? n = if n = name then some now else m.entries.find? n :=
  Table.find?_put _ _ _ _

theorem find?_delete (m : Markers) (name n : String) :
    (m.delete name).2.entries.find? n = if n = name then none else m.entries.find? n :=
  Table.find?_erase _ _ _

theorem find?_evict {m : Markers} (h : m.entries.Proper) (now : Nat) (name : String) :
    (m.evict now).2.entries.find? name = (m.entries.find? name).filter (m.isLive now) :=
  Table.find?_keep h _ _

theorem read_eq_some_true_iff {m : Markers} {now : Nat} {name : String} :
    m.read now name = some true ↔ ∃ t, m.entries.find? name = some t ∧ now - t < m.ttl := by
  simp [read, isLive]

end Markers

end RunDispatch
