import ApiGateway.Json.Basic
import ApiGateway.Proofs.Named
import Mathlib.Data.List.Induction

/-!
# Members of objects

Members of different names all end up in an object, each under its name.
-/

namespace ApiGateway.Json

/-- A member of a new name is put among the others. -/
theorem put_perm {name : String} (value : Json) {known : List (String × Json)}
    (hnew : name ∉ known.map Prod.fst) : (put name value known).Perm ((name, value) :: known) := by
  induction known with
  | nil => exact .refl _
  | cons entry rest ih =>
      obtain ⟨other, old⟩ := entry
      rw [List.map_cons, List.mem_cons, not_or] at hnew
      rw [put, if_neg hnew.1]
      split
      · exact .refl _
      · exact ((ih hnew.2).cons _).trans (.swap ..)

/-- The object of members of different names has these members, in some order. -/
theorem exists_ofMembers_eq {members : List (String × Json)} (hdistinct : (members.map Prod.fst).Nodup) :
    ∃ written, ofMembers members = .object written ∧ written.Perm members := by
  refine ⟨_, rfl, ?_⟩
  induction members using List.reverseRecOn with
  | nil => exact .refl _
  | append_singleton members member ih =>
      rw [List.map_append, List.nodup_append] at hdistinct
      have hwritten := ih hdistinct.1
      rw [List.foldl_append]
      have hnew : member.1 ∉ members.map Prod.fst := fun hmem =>
        hdistinct.2.2 member.1 hmem member.1 (.head []) rfl
      refine (put_perm member.2 fun hmem => hnew ((hwritten.map Prod.fst).mem_iff.mp hmem)).trans ?_
      exact (hwritten.cons member).trans (List.perm_append_singleton member members).symm

end ApiGateway.Json
