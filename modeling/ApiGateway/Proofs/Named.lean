/-!
# What belongs to one name

Lists whose items have names, cut down to one name or to all but one.
-/

namespace ApiGateway

theorem lookup_cons_eq_ite {α : Type} (entries : List (String × α)) (name : String) (value : α)
    (other : String) :
    ((name, value) :: entries).lookup other =
      if other = name then some value else entries.lookup other := by
  by_cases hother : other = name
  · rw [hother, List.lookup_cons_self, if_pos rfl]
  · have hbeq : (other == name) = false := by simpa using hother
    rw [List.lookup_cons, hbeq, if_neg hother]

theorem nodup_of_sorted {names : List String} (hsorted : names.Pairwise (· < ·)) : names.Nodup := by
  refine hsorted.imp fun {left right} hless hsame => ?_
  rw [hsame] at hless
  exact String.lt_irrefl right hless

/-- Under names that differ, what is listed is what is looked up. -/
theorem mem_iff_lookup_eq_some {α : Type} {entries : List (String × α)}
    (hdistinct : (entries.map Prod.fst).Nodup) {name : String} {value : α} :
    (name, value) ∈ entries ↔ entries.lookup name = some value := by
  induction entries with
  | nil => simp
  | cons entry rest ih =>
      obtain ⟨first, known⟩ := entry
      obtain ⟨hfirst, hrest⟩ := List.nodup_cons.mp hdistinct
      rw [lookup_cons_eq_ite, List.mem_cons, Prod.mk.injEq]
      by_cases hname : name = first
      · subst hname
        have hlater : (name, value) ∉ rest := fun hmem =>
          hfirst (List.mem_map.mpr ⟨(name, value), hmem, rfl⟩)
        simp [hlater, eq_comm]
      · simp [hname, ih hrest]

theorem lookup_eq_of_perm {α : Type} {entries others : List (String × α)} (hperm : entries.Perm others)
    (hdistinct : (others.map Prod.fst).Nodup) (name : String) : entries.lookup name = others.lookup name := by
  have hentries : (entries.map Prod.fst).Nodup := (hperm.map Prod.fst).nodup_iff.mpr hdistinct
  refine Option.ext fun value => ?_
  rw [← mem_iff_lookup_eq_some hentries, ← mem_iff_lookup_eq_some hdistinct, hperm.mem_iff]

/-- Under names that differ, what is looked up is all there is of its name. -/
theorem filter_eq_singleton {α : Type} {entries : List (String × α)} {name : String} {value : α}
    (hdistinct : (entries.map Prod.fst).Nodup) (hlookup : entries.lookup name = some value) :
    entries.filter (·.1 == name) = [(name, value)] := by
  induction entries with
  | nil => cases hlookup
  | cons entry rest ih =>
      obtain ⟨first, known⟩ := entry
      obtain ⟨hfirst, hrest⟩ := List.nodup_cons.mp hdistinct
      rw [lookup_cons_eq_ite] at hlookup
      split at hlookup
      · next hname =>
        subst hname
        cases hlookup
        have hnone : rest.filter (·.1 == name) = [] := List.filter_eq_nil_iff.mpr fun other hother hsame =>
          hfirst (List.mem_map.mpr ⟨other, hother, eq_of_beq hsame⟩)
        rw [List.filter_cons_of_pos (by simp), hnone]
      · next hname =>
        rw [List.filter_cons_of_neg (by simpa using Ne.symm hname)]
        exact ih hrest hlookup

theorem lookup_filter_ne {α : Type} (entries : List (String × α)) (name other : String) :
    (entries.filter (·.1 != name)).lookup other = if other = name then none else entries.lookup other := by
  induction entries with
  | nil => simp
  | cons entry rest ih =>
      obtain ⟨first, value⟩ := entry
      rw [lookup_cons_eq_ite]
      by_cases hfirst : first = name
      · rw [List.filter_cons_of_neg (by simp [hfirst]), ih, hfirst]
        split <;> rfl
      · rw [List.filter_cons_of_pos (by simpa using hfirst), lookup_cons_eq_ite, ih]
        by_cases hother : other = first
        · rw [if_pos hother, if_neg (hother ▸ hfirst), if_pos hother]
        · rw [if_neg hother, if_neg hother]

end ApiGateway
