import ApiGateway.Proofs.Text.Percent
import ApiGateway.Query

/-!
# Reading back queries

A query that is written and read again is the same query, whatever its names and values are: no mark
that parts a query is left unescaped in them.
-/

namespace ApiGateway

namespace Text

/-! ## Pieces -/

theorem splitAll_of_not_mem {mark : Char} {piece : List Char} (hmark : mark ∉ piece) :
    splitAll mark piece = [piece] := by
  induction piece with
  | nil => rfl
  | cons c piece ih =>
      rw [List.mem_cons, not_or] at hmark
      rw [splitAll, if_neg (Ne.symm hmark.1), ih hmark.2]

theorem splitAll_append_cons {mark : Char} {piece : List Char} (rest : List Char)
    (hmark : mark ∉ piece) : splitAll mark (piece ++ mark :: rest) = piece :: splitAll mark rest := by
  induction piece with
  | nil => rw [List.nil_append, splitAll, if_pos rfl]
  | cons c piece ih =>
      rw [List.mem_cons, not_or] at hmark
      rw [List.cons_append, splitAll, if_neg (Ne.symm hmark.1), ih hmark.2]

/-- Pieces without the mark are found again between the marks. -/
theorem splitAll_intercalate {mark : Char} {pieces : List (List Char)} (hne : pieces ≠ [])
    (hmark : ∀ piece ∈ pieces, mark ∉ piece) : splitAll mark ([mark].intercalate pieces) = pieces := by
  induction pieces with
  | nil => exact absurd rfl hne
  | cons piece rest ih =>
      have hpiece := hmark piece (.head rest)
      cases rest with
      | nil => simpa using splitAll_of_not_mem hpiece
      | cons next rest =>
          have hrest := ih (List.cons_ne_nil next rest) fun other hother =>
            hmark other (.tail piece hother)
          have hjoin : [mark].intercalate (piece :: next :: rest) =
              piece ++ mark :: [mark].intercalate (next :: rest) := by
            simp
          rw [hjoin, splitAll_append_cons _ hpiece, hrest]

namespace Percent

/-- A character that needs an escape does not stand in an escaped text. -/
theorem not_mem_encode {mark : Char} (text : List Char) (hmark : mark ≠ '%')
    (hreserved : isUnreserved (UInt8.ofNat mark.toNat) = false) : mark ∉ encode text := by
  intro hmem
  rcases isEscaped_of_mem_encode hmem with hpercent | ⟨-, hfree⟩
  · exact hmark hpercent
  · rw [hreserved] at hfree
    cases hfree

end Percent

end Text

namespace Query

open Text

/-! ## Names and values -/

/-- No plus sign is left to be read as a blank. -/
theorem map_plus_encode (text : List Char) :
    (utf8 (Percent.encode text)).map (fun byte => if byte = 43 then 32 else byte) =
      utf8 (Percent.encode text) := by
  have hascii : ∀ c ∈ Percent.encode text, c.toNat < 128 := fun c hc =>
    (Percent.isEscaped_of_mem_encode hc).lt
  rw [utf8_of_ascii hascii, List.map_map]
  refine List.map_congr_left fun c hc => if_neg fun hplus => ?_
  have hc43 : c = '+' := by
    have hnat := congrArg UInt8.toNat hplus
    rw [toNat_ofNat (by have := hascii c hc; omega)] at hnat
    rw [← Char.ofNat_toNat c, hnat]
    rfl
  exact Percent.not_mem_encode text (by decide) (by decide) (hc43 ▸ hc)

theorem decodeText_encode (text : String) : decodeText (Percent.encode text.toList) = text := by
  rw [decodeText, map_plus_encode, Percent.decode_encode, ofUtf8_utf8, String.ofList_toList]

theorem decodePiece_encodePair (pair : String × String) : decodePiece (encodePair pair) = pair := by
  have hcut : cut? '=' (encodePair pair) =
      some (Percent.encode pair.1.toList, Percent.encode pair.2.toList) :=
    cut?_eq_some_iff.mpr ⟨Percent.not_mem_encode _ (by decide) (by decide), rfl⟩
  simp only [decodePiece, hcut, decodeText_encode]

theorem and_not_mem_encodePair (pair : String × String) : '&' ∉ encodePair pair := by
  intro hmem
  rcases List.mem_append.mp hmem with hname | hvalue
  · exact Percent.not_mem_encode _ (by decide) (by decide) hname
  · rcases List.mem_cons.mp hvalue with heq | hvalue
    · exact absurd heq (by decide)
    · exact Percent.not_mem_encode _ (by decide) (by decide) hvalue

/-! ## Queries -/

/-- A query is read back from what is written of it. -/
theorem decode_encode (query : Query) : decode (encode query) = query := by
  cases hquery : query with
  | nil => decide
  | cons first rest =>
      rw [← hquery]
      have hne : query.map encodePair ≠ [] := by simp [hquery]
      have hmarks : ∀ piece ∈ query.map encodePair, '&' ∉ piece := by
        intro piece hpiece
        obtain ⟨pair, -, rfl⟩ := List.mem_map.mp hpiece
        exact and_not_mem_encodePair pair
      have hfull : (query.map encodePair).filter (· ≠ []) = query.map encodePair := by
        refine List.filter_eq_self.mpr fun piece hpiece => ?_
        obtain ⟨pair, -, rfl⟩ := List.mem_map.mp hpiece
        simp [encodePair]
      rw [decode, encode, String.toList_ofList, splitAll_intercalate hne hmarks, hfull, List.map_map]
      refine (List.map_congr_left fun pair _ => ?_).trans (List.map_id query)
      exact decodePiece_encodePair pair

/-- What a server reads from a path and query: the pairs behind the first question mark. -/
def ofTarget (target : String) : Query :=
  match Text.cut? '?' target.toList with
  | some (_, raw) => decode (.ofList raw)
  | none => []

end Query

end ApiGateway
