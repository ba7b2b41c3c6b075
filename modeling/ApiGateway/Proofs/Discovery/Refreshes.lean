import ApiGateway.Proofs.Discovery.Flow
import ApiGateway.Proofs.Discovery.Turns
import ApiGateway.Proofs.Named

/-!
# Refreshes

After a refresh the known applications, the addresses of their instances and what has been told agree
with the answer of the registry, whatever the answers before were.  An answer may list a member any
number of times and in any order; a registry that fails changes nothing.
-/

namespace ApiGateway.Discovery

namespace Cache

/-! ## Known applications in the order of their names -/

def names (applications : List Application) : List String :=
  applications.map Application.name

theorem mem_enter {application other : Application} {known : List Application}
    (hmem : other ∈ enter application known) : other = application ∨ other ∈ known := by
  induction known with
  | nil => exact Or.inl (List.mem_singleton.mp hmem)
  | cons first rest ih =>
      rw [enter] at hmem
      split at hmem
      · exact Or.inr hmem
      · split at hmem
        · exact List.mem_cons.mp hmem
        · rcases List.mem_cons.mp hmem with rfl | hrest
          · exact Or.inr (.head rest)
          · rcases ih hrest with hnew | hold
            · exact Or.inl hnew
            · exact Or.inr (.tail first hold)

theorem mem_names_enter {application : Application} {known : List Application} {name : String} :
    name ∈ names (enter application known) ↔ name = application.name ∨ name ∈ names known := by
  induction known with
  | nil => simp [enter, names]
  | cons first rest ih =>
      rw [enter]
      split
      · next hsame => simp [names, hsame]
      · split
        · simp [names]
        · rw [names, List.map_cons, List.mem_cons, ← names, ih, names, names, List.map_cons,
            List.mem_cons]
          tauto

theorem sorted_enter (application : Application) {known : List Application}
    (hsorted : (names known).Pairwise (· < ·)) :
    (names (enter application known)).Pairwise (· < ·) := by
  induction known with
  | nil => simp [enter, names]
  | cons first rest ih =>
      obtain ⟨hbelow, hrest⟩ := List.pairwise_cons.mp hsorted
      rw [enter]
      split
      · exact hsorted
      · next hother =>
        split
        · next hless =>
          refine List.pairwise_cons.mpr ⟨?_, hsorted⟩
          intro name hname
          rcases List.mem_cons.mp hname with rfl | hlater
          · exact hless
          · exact String.lt_trans hless (hbelow name hlater)
        · next hnot =>
          refine List.pairwise_cons.mpr ⟨?_, ih hrest⟩
          intro name hname
          rcases mem_names_enter.mp hname with rfl | hlater
          · rcases Std.lt_trichotomy application.name first.name with hless | heq | hmore
            · exact absurd hless hnot
            · exact absurd heq hother
            · exact hmore
          · exact hbelow name hlater

theorem applicationsOf_snoc (cache : Cache) (members : Membership) (member : Member) :
    cache.applicationsOf (members ++ [member]) =
      enter ⟨member.name, cache.scheme⟩ (cache.applicationsOf members) :=
  List.foldl_concat _ _ _ _

theorem scheme_of_mem_applicationsOf {cache : Cache} {members : Membership} {application : Application}
    (hmem : application ∈ cache.applicationsOf members) : application.scheme = cache.scheme := by
  induction members using List.reverseRecOn with
  | nil => cases hmem
  | append_singleton members member ih =>
      rw [applicationsOf_snoc] at hmem
      rcases mem_enter hmem with rfl | hold
      · rfl
      · exact ih hold

theorem mem_names_applicationsOf {cache : Cache} {members : Membership} {name : String} :
    name ∈ names (cache.applicationsOf members) ↔ ∃ member ∈ members, member.name = name := by
  induction members using List.reverseRecOn with
  | nil => simp [applicationsOf, names]
  | append_singleton members member ih =>
      rw [applicationsOf_snoc, mem_names_enter, ih]
      simp only [List.mem_append, List.mem_singleton, or_and_right, exists_or, exists_eq_left]
      rw [or_comm, eq_comm]

theorem sorted_applicationsOf (cache : Cache) (members : Membership) :
    (names (cache.applicationsOf members)).Pairwise (· < ·) := by
  induction members using List.reverseRecOn with
  | nil => exact .nil
  | append_singleton members member ih =>
      rw [applicationsOf_snoc]
      exact sorted_enter _ ih

/-! ## Addresses -/

theorem names_addAddress (name address : String) (table : List (String × List String)) :
    (addAddress name address table).map (·.1) =
      if name ∈ table.map (·.1) then table.map (·.1) else table.map (·.1) ++ [name] := by
  induction table with
  | nil => rfl
  | cons entry rest ih =>
      obtain ⟨other, addresses⟩ := entry
      by_cases hsame : name = other
      · simp [addAddress, hsame]
      · rw [addAddress, if_neg hsame, List.map_cons, ih]
        by_cases hlater : name ∈ rest.map (·.1)
        · simp [hlater, hsame]
        · simp [hlater, hsame]

theorem lookup_addAddress (name address other : String) (table : List (String × List String)) :
    ((addAddress name address table).lookup other).getD [] =
      if other = name then
        if ((table.lookup other).getD []).contains address then (table.lookup other).getD []
        else (table.lookup other).getD [] ++ [address]
      else (table.lookup other).getD [] := by
  induction table with
  | nil =>
      by_cases hother : other = name
      · simp [addAddress, hother]
      · have hbeq : (other == name) = false := by simpa using hother
        simp [addAddress, List.lookup_cons, hbeq, hother]
  | cons entry rest ih =>
      obtain ⟨first, addresses⟩ := entry
      rw [addAddress]
      by_cases hfirst : other = first
      · subst hfirst
        by_cases hname : name = other
        · simp [hname]
        · simp [hname, Ne.symm hname]
      · have hbeq : (other == first) = false := by simpa using hfirst
        split
        · next hname =>
          subst hname
          simp [List.lookup_cons, hbeq, hfirst]
        · rw [List.lookup_cons, hbeq, List.lookup_cons, hbeq]
          exact ih

theorem addressesOf_snoc (members : Membership) (member : Member) :
    addressesOf (members ++ [member]) =
      addAddress member.name member.address (addressesOf members) :=
  List.foldl_concat _ _ _ _

theorem mem_names_addressesOf {members : Membership} {name : String} :
    name ∈ (addressesOf members).map (·.1) ↔ ∃ member ∈ members, member.name = name := by
  induction members using List.reverseRecOn with
  | nil => simp [addressesOf]
  | append_singleton members member ih =>
      simp only [List.mem_append, List.mem_singleton, or_and_right, exists_or, exists_eq_left]
      rw [addressesOf_snoc, names_addAddress, ← ih]
      split
      · next hthere =>
        refine ⟨Or.inl, ?_⟩
        rintro (hold | rfl)
        · exact hold
        · exact hthere
      · rw [List.mem_append, List.mem_singleton, @eq_comm _ name]

theorem nodup_addressesOf (members : Membership) : ((addressesOf members).map (·.1)).Nodup := by
  induction members using List.reverseRecOn with
  | nil => exact .nil
  | append_singleton members member ih =>
      rw [addressesOf_snoc, names_addAddress]
      split
      · exact ih
      · next hnew => exact List.nodup_append_comm.mp (List.nodup_cons.mpr ⟨hnew, ih⟩)

/-- The addresses that members list under a name, each where it is listed first. -/
def listed (members : Membership) (name : String) : List String :=
  ((members.filter (·.name == name)).map (·.address)).eraseDups

theorem listed_snoc (members : Membership) (member : Member) (name : String) :
    listed (members ++ [member]) name =
      if name = member.name then
        if (listed members name).contains member.address then listed members name
        else listed members name ++ [member.address]
      else listed members name := by
  by_cases hname : name = member.name
  · have hlast : [member].filter (·.name == name) = [member] := by simp [hname]
    rw [if_pos hname, listed, listed, List.filter_append, hlast, List.map_append, List.map_singleton]
    generalize (members.filter (·.name == name)).map (·.address) = addresses
    rw [List.eraseDups_append]
    by_cases hthere : member.address ∈ addresses
    · simp [List.removeAll, hthere]
    · simp [List.removeAll, hthere, List.eraseDups_cons]
  · simp [listed, hname, Ne.symm hname]

theorem lookup_addressesOf (members : Membership) (name : String) :
    ((addressesOf members).lookup name).getD [] = listed members name := by
  induction members using List.reverseRecOn with
  | nil => rfl
  | append_singleton members member ih => rw [addressesOf_snoc, lookup_addAddress, ih, listed_snoc]

theorem listed_ne_nil {members : Membership} {member : Member} (hmem : member ∈ members) :
    listed members member.name ≠ [] := by
  intro hnone
  have haddress : member.address ∈ listed members member.name := by
    rw [listed, List.mem_eraseDups]
    exact List.mem_map_of_mem (List.mem_filter.mpr ⟨hmem, by simp⟩)
  rw [hnone] at haddress
  cases haddress

/-! ## One refresh -/

structure IsRefreshed (before : Cache) (sieves : Sieves Application) (members : Membership)
    (outcome : Outcome) (after : Cache) : Prop where
  scheme : after.scheme = before.scheme
  /-- The known applications are the listed ones that the sieves let through. -/
  known : ∀ application, application ∈ after.known ↔ application.scheme = before.scheme ∧
    sieves.allows application = true ∧ ∃ member ∈ members, member.name = application.name
  known_sorted : (names after.known).Pairwise (· < ·)
  found : ∀ application, application ∈ outcome.found ↔
    application ∈ after.known ∧ application.name ∉ names before.known
  found_sorted : (names outcome.found).Pairwise (· < ·)
  lost : ∀ application, application ∈ outcome.lost ↔
    application ∈ before.known ∧ application.name ∉ names after.known
  lost_sorted : (names outcome.lost).Pairwise (· < ·)
  /-- Exactly the known applications have an entry in the table of addresses, and one each. -/
  instances : (after.instances.map (·.1)).Nodup ∧
    ∀ name, name ∈ after.instances.map (·.1) ↔ name ∈ names after.known
  addresses : ∀ name ∈ names after.known,
    after.addresses name = listed members name ∧ listed members name ≠ []

theorem mem_filter_unknown {applications known : List Application} {application : Application} :
    application ∈ applications.filter (!knows known ·) ↔
      application ∈ applications ∧ application.name ∉ names known := by
  rw [List.mem_filter, Bool.not_eq_true', ← Bool.not_eq_true, knows_iff, names]

/-- An application is let through by its name, so that all its members are admitted or none. -/
theorem listed_admitted {cache : Cache} {sieves : Sieves Application} {members : Membership}
    {name : String} (hallowed : sieves.allows ⟨name, cache.scheme⟩ = true) :
    listed (cache.admitted sieves members) name = listed members name := by
  have hadmitted : (cache.admitted sieves members).filter (·.name == name) =
      members.filter (·.name == name) := by
    rw [admitted, List.filter_filter]
    refine List.filter_congr fun member _ => ?_
    by_cases hname : member.name = name
    · simp [hname, hallowed]
    · simp [hname]
  rw [listed, hadmitted, listed]

theorem isRefreshed (cache : Cache) (sieves : Sieves Application) (members : Membership)
    (hsorted : (names cache.known).Pairwise (· < ·)) :
    cache.IsRefreshed sieves members (cache.refresh sieves members).2
      (cache.refresh sieves members).1 := by
  have hnames : ∀ name, name ∈ names (cache.applicationsOf (cache.admitted sieves members)) ↔
      sieves.allows ⟨name, cache.scheme⟩ = true ∧ ∃ member ∈ members, member.name = name := by
    intro name
    rw [mem_names_applicationsOf, admitted]
    constructor
    · rintro ⟨member, hmember, rfl⟩
      obtain ⟨hlisted, hallowed⟩ := List.mem_filter.mp hmember
      exact ⟨hallowed, member, hlisted, rfl⟩
    · rintro ⟨hallowed, member, hlisted, rfl⟩
      exact ⟨member, List.mem_filter.mpr ⟨hlisted, hallowed⟩, rfl⟩
  constructor
  case scheme => rfl
  case known =>
    intro application
    constructor
    · intro hknown
      have hscheme := scheme_of_mem_applicationsOf hknown
      obtain ⟨hallowed, hlisted⟩ := (hnames application.name).mp (List.mem_map_of_mem hknown)
      rw [← hscheme] at hallowed
      exact ⟨hscheme, hallowed, hlisted⟩
    · rintro ⟨hscheme, hallowed, hlisted⟩
      rw [show application = ⟨application.name, cache.scheme⟩ from hscheme ▸ rfl] at hallowed
      obtain ⟨other, hother, hname⟩ :=
        List.mem_map.mp ((hnames application.name).mpr ⟨hallowed, hlisted⟩)
      have hsame : other = application :=
        congrArg₂ Application.mk hname ((scheme_of_mem_applicationsOf hother).trans hscheme.symm)
      rwa [← hsame]
  case known_sorted => exact sorted_applicationsOf cache _
  case found => exact fun _ => mem_filter_unknown
  case found_sorted =>
    exact (sorted_applicationsOf cache _).sublist (List.filter_sublist.map Application.name)
  case lost => exact fun _ => mem_filter_unknown
  case lost_sorted => exact hsorted.sublist (List.filter_sublist.map Application.name)
  case instances =>
    refine ⟨nodup_addressesOf _, ?_⟩
    intro name
    exact mem_names_addressesOf.trans mem_names_applicationsOf.symm
  case addresses =>
    intro name hname
    obtain ⟨hallowed, member, hlisted, rfl⟩ := (hnames name).mp hname
    exact ⟨(lookup_addressesOf _ _).trans (listed_admitted hallowed), listed_ne_nil hlisted⟩

/-! ## What a refresh tells -/

namespace IsRefreshed

variable {before after : Cache} {sieves : Sieves Application} {members : Membership} {outcome : Outcome}

theorem mem_found (hrefreshed : before.IsRefreshed sieves members outcome after) (name : String) :
    name ∈ names outcome.found ↔ name ∈ names after.known ∧ name ∉ names before.known := by
  simp only [names, List.mem_map, hrefreshed.found]
  constructor
  · rintro ⟨application, ⟨hknown, hnew⟩, rfl⟩
    exact ⟨⟨application, hknown, rfl⟩, by simpa [names] using hnew⟩
  · rintro ⟨⟨application, hknown, rfl⟩, hnew⟩
    exact ⟨application, ⟨hknown, by simpa [names] using hnew⟩, rfl⟩

theorem mem_lost (hrefreshed : before.IsRefreshed sieves members outcome after) (name : String) :
    name ∈ names outcome.lost ↔ name ∈ names before.known ∧ name ∉ names after.known := by
  simp only [names, List.mem_map, hrefreshed.lost]
  constructor
  · rintro ⟨application, ⟨hknown, hgone⟩, rfl⟩
    exact ⟨⟨application, hknown, rfl⟩, by simpa [names] using hgone⟩
  · rintro ⟨⟨application, hknown, rfl⟩, hgone⟩
    exact ⟨application, ⟨hknown, by simpa [names] using hgone⟩, rfl⟩

theorem inTurn (hrefreshed : before.IsRefreshed sieves members outcome after) (name : String) :
    InTurn ((names before.known).contains name)
      ((outcome.events after.known).filterMap (·.turn? name)) ((names after.known).contains name) := by
  have hfound : InTurn ((names before.known).contains name)
      ((outcome.found.map Event.found).filterMap (·.turn? name))
      (if name ∈ names outcome.found then true else (names before.known).contains name) := by
    have hturns : (outcome.found.map Event.found).filterMap (·.turn? name) =
        ((names outcome.found).filter (· == name)).map fun _ => true :=
      turns_map Application.name Event.found (Event.turn? name) (fun _ => rfl) _
    rw [hturns]
    refine InTurn.ofNodup (nodup_of_sorted hrefreshed.found_sorted) fun hmem => ?_
    simpa using ((hrefreshed.mem_found name).mp hmem).2
  have hlost : InTurn (if name ∈ names outcome.found then true else (names before.known).contains name)
      ((outcome.lost.map Event.lost).filterMap (·.turn? name))
      (if name ∈ names outcome.lost then false
        else if name ∈ names outcome.found then true else (names before.known).contains name) := by
    have hturns : (outcome.lost.map Event.lost).filterMap (·.turn? name) =
        ((names outcome.lost).filter (· == name)).map fun _ => false :=
      turns_map Application.name Event.lost (Event.turn? name) (fun _ => rfl) _
    rw [hturns]
    refine InTurn.ofNodup (nodup_of_sorted hrefreshed.lost_sorted) fun hmem => ?_
    have hknown := ((hrefreshed.mem_lost name).mp hmem).1
    simp [hknown]
  -- No name is found and lost in one refresh.
  have hafter : (if name ∈ names outcome.lost then false
      else if name ∈ names outcome.found then true else (names before.known).contains name) =
        (names after.known).contains name := by
    simp only [hrefreshed.mem_found, hrefreshed.mem_lost]
    by_cases hbefore : name ∈ names before.known
    · by_cases hthere : name ∈ names after.known
      · simp [hbefore, hthere]
      · simp [hbefore, hthere]
    · by_cases hthere : name ∈ names after.known
      · simp [hbefore, hthere]
      · simp [hbefore, hthere]
  rw [hafter] at hlost
  rw [Outcome.events, List.filterMap_append, List.filterMap_append]
  exact (hfound.append hlost).append rfl

end IsRefreshed

end Cache

def Event.known (names : List String) : Event → List String
  | .found application => names ++ [application.name]
  | .lost application => names.filter (· != application.name)
  | .refreshed _ => names

/-- The turns of a name tell whether it is known in the end. -/
theorem InTurn.known {name : String} {names : List String} {events : List Event} {after : Bool}
    (hturn : InTurn (names.contains name) (events.filterMap (·.turn? name)) after) :
    (events.foldl Event.known names).contains name = after := by
  induction events generalizing names with
  | nil => exact hturn
  | cons event events ih =>
      refine ih ?_
      cases event with
      | refreshed applications => exact hturn
      | found application =>
          by_cases hname : application.name = name
          · rw [List.filterMap_cons_some (b := true) (by simp [Event.turn?, hname])] at hturn
            simpa [Event.known, hname] using hturn.2
          · rw [List.filterMap_cons_none (by simp [Event.turn?, hname])] at hturn
            simpa [Event.known, Ne.symm hname] using hturn
      | lost application =>
          by_cases hname : application.name = name
          · rw [List.filterMap_cons_some (b := false) (by simp [Event.turn?, hname])] at hturn
            simpa [Event.known, hname] using hturn.2
          · rw [List.filterMap_cons_none (by simp [Event.turn?, hname])] at hturn
            simpa [Event.known, Ne.symm hname] using hturn

namespace Chain

/-! ## Any number of refreshes -/

def refreshAll (chain : Chain) (answers : List (Except Failure Membership)) : Chain :=
  answers.foldl (fun chain members => (chain.refresh members).1) chain

/-- The known applications are in order, and what has been told finds and loses them in turn. -/
structure IsCurrent (chain : Chain) : Prop where
  sorted : (Cache.names chain.cache.known).Pairwise (· < ·)
  inTurn : ∀ name, InTurn false (chain.discovered.filterMap (·.turn? name))
    ((Cache.names chain.cache.known).contains name)

theorem IsCurrent.refresh {chain : Chain} (hcurrent : chain.IsCurrent)
    (members : Except Failure Membership) : (chain.refresh members).1.IsCurrent := by
  cases members with
  | error failure => exact hcurrent
  | ok members =>
      have hrefreshed := chain.cache.isRefreshed chain.sieves members hcurrent.sorted
      constructor
      · exact hrefreshed.known_sorted
      · intro name
        simp only [Chain.refresh, List.filterMap_append]
        exact (hcurrent.inTurn name).append (hrefreshed.inTurn name)

theorem IsCurrent.refreshAll {chain : Chain} (hcurrent : chain.IsCurrent)
    (answers : List (Except Failure Membership)) : (chain.refreshAll answers).IsCurrent := by
  induction answers generalizing chain with
  | nil => exact hcurrent
  | cons first rest ih => exact ih (hcurrent.refresh first)

theorem sieves_refreshAll (chain : Chain) (answers : List (Except Failure Membership)) :
    (chain.refreshAll answers).sieves = chain.sieves := by
  induction answers generalizing chain with
  | nil => rfl
  | cons first rest ih =>
      have hfirst : (chain.refresh first).1.sieves = chain.sieves := by
        cases first <;> rfl
      exact (ih (chain.refresh first).1).trans hfirst

/-- After any answers of the registry, a refresh that succeeds knows, finds and loses what the listed
members and the sieves say, and tells just this; one that fails changes nothing and tells nothing.  So
each application is found and lost in turn, and what was told gives the known applications. -/
theorem refreshAll_agrees (chain : Chain) (scheme : String)
    (answers : List (Except Failure Membership)) :
    let begun : Chain := { chain with cache := { scheme }, discovered := [] }
    let before := begun.refreshAll answers
    (∀ members, ∃ after outcome, before.refresh (.ok members) = (after, .ok outcome) ∧
        before.cache.IsRefreshed chain.sieves members outcome after.cache ∧
        after.discovered = before.discovered ++ (outcome.found.map .found ++
          outcome.lost.map .lost ++ [.refreshed after.cache.known])) ∧
      (∀ failure, before.refresh (.error failure) = (before, .error failure)) ∧
      (∀ name, InTurn false (before.discovered.filterMap (·.turn? name))
        ((Cache.names before.cache.known).contains name)) ∧
      ∀ name, name ∈ before.discovered.foldl Event.known [] ↔
        name ∈ Cache.names before.cache.known := by
  intro begun before
  have hbegun : begun.IsCurrent := ⟨.nil, fun _ => rfl⟩
  have hcurrent : before.IsCurrent := hbegun.refreshAll answers
  have hsieves : before.sieves = chain.sieves := sieves_refreshAll begun answers
  refine ⟨?_, fun failure => rfl, hcurrent.inTurn, ?_⟩
  · intro members
    have hrefreshed := before.cache.isRefreshed before.sieves members hcurrent.sorted
    refine ⟨_, _, rfl, ?_, rfl⟩
    rw [← hsieves]
    exact hrefreshed
  · intro name
    have hreplayed := @InTurn.known name [] before.discovered _ (hcurrent.inTurn name)
    rw [← List.contains_iff_mem, hreplayed, List.contains_iff_mem]

end Chain

end ApiGateway.Discovery
