import ApiGateway.Net.SocketAddress
import Mathlib.Data.List.TakeWhile

/-!
# Hosts in front of a port

A socket address is read part by part.  No reader of a part looks behind the character that stops it, and each
leaves an end of the text.  So a host with a colon and a port behind it is an address if and only if the host
is read to its end: as four numbers, or in brackets as pieces with an optional scope.
-/

namespace ApiGateway.Net.SocketAddress

/-! ## Readers -/

/-- The reader leaves an end of the text, and does not look behind a character that stops it. -/
structure IsLocal {α : Type} (stop : Char) (read : List Char → Option (α × List Char)) : Prop where
  suffix : ∀ {text value rest}, read text = some (value, rest) → rest <:+ text
  append : ∀ text behind, read (text ++ stop :: behind) =
    (read text).map fun entry => (entry.1, entry.2 ++ stop :: behind)

namespace IsLocal

variable {α β : Type} {stop : Char} {read : List Char → Option (α × List Char)}

theorem bind {next : α → List Char → Option (β × List Char)} (hread : IsLocal stop read)
    (hnext : ∀ value, IsLocal stop (next value)) :
    IsLocal stop fun text => (read text).bind fun entry => next entry.1 entry.2 where
  suffix := by
    intro text value rest hbind
    obtain ⟨⟨first, middle⟩, hfirst, hsecond⟩ := Option.bind_eq_some_iff.mp hbind
    exact ((hnext first).suffix hsecond).trans (hread.suffix hfirst)
  append := by
    intro text behind
    rw [hread.append]
    cases read text with
    | none => rfl
    | some entry => exact (hnext entry.1).append entry.2 behind

theorem map (f : α → β) (hread : IsLocal stop read) :
    IsLocal stop fun text => (read text).map fun entry => (f entry.1, entry.2) where
  suffix := by
    intro text value rest hmap
    obtain ⟨⟨first, middle⟩, hfirst, heq⟩ := Option.map_eq_some_iff.mp hmap
    cases heq
    exact hread.suffix hfirst
  append := by
    intro text behind
    rw [hread.append, Option.map_map, Option.map_map]
    rfl

/-- Nothing that is read to its end has the character that stops the reader. -/
theorem stop_not_mem (hread : IsLocal stop read) {text : List Char} {value : α}
    (hwhole : read text = some (value, [])) : stop ∉ text := by
  intro hstop
  obtain ⟨before, behind, rfl⟩ := List.append_of_mem hstop
  rw [hread.append] at hwhole
  obtain ⟨entry, -, heq⟩ := Option.map_eq_some_iff.mp hwhole
  exact List.append_ne_nil_of_right_ne_nil _ (List.cons_ne_nil stop behind) (congrArg Prod.snd heq)

end IsLocal

theorem takeWhile_append_cons {accept : Char → Bool} {stop : Char} (hstop : accept stop = false)
    (text behind : List Char) :
    (text ++ stop :: behind).takeWhile accept = text.takeWhile accept ∧
      (text ++ stop :: behind).dropWhile accept = text.dropWhile accept ++ stop :: behind := by
  induction text with
  | nil => simp [hstop]
  | cons c text ih =>
      cases haccept : accept c with
      | false => simp [haccept]
      | true => simp [haccept, ih]

theorem isLocal_number {accept : Char → Bool} {stop : Char} (hstop : accept stop = false)
    (base limit : Nat) : IsLocal stop (number? base limit accept) where
  suffix := by
    intro text value rest hread
    unfold number? at hread
    dsimp only at hread
    split at hread
    · cases hread
    · cases hread
      exact List.dropWhile_suffix accept
  append := by
    intro text behind
    obtain ⟨htake, hdrop⟩ := takeWhile_append_cons hstop text behind
    unfold number?
    dsimp only
    rw [htake, hdrop]
    split <;> rfl

theorem isLocal_octet {stop : Char} (hstop : isDecimal stop = false) : IsLocal stop octet? where
  suffix := by
    intro text value rest hread
    unfold octet? at hread
    dsimp only at hread
    split at hread
    · cases hread
    · exact (isLocal_number hstop 10 255).suffix hread
  append := by
    intro text behind
    obtain ⟨htake, -⟩ := takeWhile_append_cons hstop text behind
    unfold octet?
    dsimp only
    rw [htake, (isLocal_number hstop 10 255).append]
    split <;> rfl

theorem mark?_append {mark stop : Char} (hstop : stop ≠ mark) (text behind : List Char) :
    mark? mark (text ++ stop :: behind) = (mark? mark text).map (· ++ stop :: behind) := by
  cases text with
  | nil => exact if_neg hstop
  | cons c text =>
      simp only [List.cons_append, mark?]
      split <;> rfl

theorem suffix_of_mark? {mark : Char} {text rest : List Char} (hmark : mark? mark text = some rest) :
    text = mark :: rest := by
  cases text with
  | nil => cases hmark
  | cons c text =>
      simp only [mark?] at hmark
      split at hmark
      · next hc =>
        cases hmark
        rw [hc]
      · cases hmark

/-- A reader behind a mark. -/
theorem IsLocal.behind {α : Type} {mark stop : Char} {read : List Char → Option (α × List Char)}
    (hread : IsLocal stop read) (hstop : stop ≠ mark) :
    IsLocal stop fun text => (mark? mark text).bind read where
  suffix := by
    intro text value rest hbind
    obtain ⟨inner, hmark, hinner⟩ := Option.bind_eq_some_iff.mp hbind
    rw [suffix_of_mark? hmark]
    exact (hread.suffix hinner).trans (List.suffix_cons mark inner)
  append := by
    intro text behind
    rw [mark?_append hstop]
    cases mark? mark text with
    | none => rfl
    | some inner => exact hread.append inner behind

/-! ## Four numbers -/

theorem isLocal_v4 {stop : Char} (hdecimal : isDecimal stop = false) (hdot : stop ≠ '.') :
    IsLocal stop v4? := by
  have hfirst := isLocal_octet hdecimal
  have hlater := hfirst.behind hdot
  have hall := hfirst.bind fun a => hlater.bind fun b => hlater.bind fun c =>
    hlater.map fun d => ((a * 256 + b) * 256 + c) * 256 + d
  have hsame : v4? = fun text => (octet? text).bind fun a => ((mark? '.' a.2).bind octet?).bind fun b =>
      ((mark? '.' b.2).bind octet?).bind fun c => ((mark? '.' c.2).bind octet?).map fun d =>
        (((a.1 * 256 + b.1) * 256 + c.1) * 256 + d.1, d.2) := by
    funext text
    simp only [v4?, Option.bind_eq_bind, Option.pure_def, Option.bind_assoc, Option.map_eq_bind,
      Function.comp_def]
  rw [hsame]
  exact hall

/-! ## Pieces -/

theorem isLocal_piece {stop : Char} (hhex : isHex stop = false) : IsLocal stop piece? where
  suffix := by
    intro text value rest hread
    unfold piece? at hread
    dsimp only at hread
    split at hread
    · cases hread
    · cases hread
      exact List.drop_suffix _ text
  append := by
    intro text behind
    obtain ⟨htake, -⟩ := takeWhile_append_cons hhex text behind
    have hlength : ((text.takeWhile isHex).take 4).length ≤ text.length :=
      Nat.le_trans (List.length_take_le' 4 _) (List.takeWhile_sublist isHex).length_le
    unfold piece?
    dsimp only
    rw [htake]
    split
    · rfl
    · rw [List.drop_append_of_le_length hlength]
      rfl

structure StopsPieces (stop : Char) : Prop where
  hex : isHex stop = false
  decimal : isDecimal stop = false
  dot : stop ≠ '.'
  colon : stop ≠ ':'

/-- Where a piece starts: at once, or behind a colon. -/
def start? (first : Bool) (text : List Char) : Option (List Char) :=
  if first then some text else mark? ':' text

theorem suffix_of_start? {first : Bool} {text start : List Char} (hstart : start? first text = some start) :
    start <:+ text := by
  unfold start? at hstart
  split at hstart
  · cases hstart
    exact List.suffix_refl text
  · rw [suffix_of_mark? hstart]
    exact List.suffix_cons ':' start

theorem start?_append {stop : Char} (hcolon : stop ≠ ':') (first : Bool) (text behind : List Char) :
    start? first (text ++ stop :: behind) = (start? first text).map (· ++ stop :: behind) := by
  unfold start?
  split
  · rfl
  · exact mark?_append hcolon text behind

/-- Four numbers in the place of two pieces, if there is room for two. -/
def embedded? (limit : Nat) (text : List Char) : Option (Nat × List Char) :=
  if 1 ≤ limit then v4? text else none

theorem pieces_succ (first : Bool) (limit : Nat) (text : List Char) :
    pieces first (limit + 1) text =
      match start? first text with
      | none => ([], false, text)
      | some start =>
        match embedded? limit start with
        | some (address, rest) => ([address / 65536, address % 65536], true, rest)
        | none =>
          match piece? start with
          | none => ([], false, text)
          | some (piece, rest) =>
            (piece :: (pieces false limit rest).1, (pieces false limit rest).2.1,
              (pieces false limit rest).2.2) := rfl

def doubled? : List Char → Option (List Char)
  | ':' :: ':' :: rest => some rest
  | _ => none

theorem suffix_of_doubled? {text rest : List Char} (hdoubled : doubled? text = some rest) :
    text = ':' :: ':' :: rest := by
  unfold doubled? at hdoubled
  split at hdoubled
  · cases hdoubled
    rfl
  · cases hdoubled

theorem doubled?_append {stop : Char} (hcolon : stop ≠ ':') (text behind : List Char) :
    doubled? (text ++ stop :: behind) = (doubled? text).map (· ++ stop :: behind) := by
  unfold doubled?
  split
  · next rest hwhole =>
    match text with
    | [] => exact absurd (List.cons.inj hwhole).1 hcolon
    | [c] => exact absurd (List.cons.inj (List.cons.inj hwhole).2).1 hcolon
    | c :: d :: text =>
        obtain ⟨rfl, hrest⟩ := List.cons.inj hwhole
        obtain ⟨rfl, rfl⟩ := List.cons.inj hrest
        rfl
  · next hno =>
    split
    · next rest => exact (hno (rest ++ stop :: behind) rfl).elim
    · rfl

/-- The pieces before and behind two colons. -/
theorem v6?_eq (text : List Char) :
    v6? text =
      if (pieces true 8 text).1.length = 8 then
        some ((pieces true 8 text).1, (pieces true 8 text).2.2)
      else if (pieces true 8 text).2.1 then none
      else (doubled? (pieces true 8 text).2.2).map fun rest =>
        ((pieces true 8 text).1 ++ List.replicate (8 - (pieces true 8 text).1.length -
            (pieces true (7 - (pieces true 8 text).1.length) rest).1.length) 0 ++
            (pieces true (7 - (pieces true 8 text).1.length) rest).1,
          (pieces true (7 - (pieces true 8 text).1.length) rest).2.2) := by
  unfold v6?
  rcases pieces true 8 text with ⟨head, embedded, rest⟩
  dsimp only
  split
  · rfl
  · split
    · rfl
    · split
      · rfl
      · next hno =>
        unfold doubled?
        split
        · next behind => exact (hno behind rfl).elim
        · rfl

section

variable {stop : Char} (hstop : StopsPieces stop)

include hstop

theorem isLocal_embedded (limit : Nat) : IsLocal stop (embedded? limit) := by
  have hv4 := isLocal_v4 hstop.decimal hstop.dot
  unfold embedded?
  split
  · exact hv4
  · constructor
    · intro text value rest hread
      cases hread
    · exact fun text behind => rfl

theorem pieces_suffix (first : Bool) (limit : Nat) (text : List Char) :
    (pieces first limit text).2.2 <:+ text := by
  induction limit generalizing first text with
  | zero => exact List.suffix_refl text
  | succ limit ih =>
      rw [pieces_succ]
      cases hstart : start? first text with
      | none => exact List.suffix_refl text
      | some start =>
          have hsuffix := suffix_of_start? hstart
          dsimp only
          cases hembedded : embedded? limit start with
          | some entry => exact ((isLocal_embedded hstop limit).suffix hembedded).trans hsuffix
          | none =>
              dsimp only
              cases hpiece : piece? start with
              | none => exact List.suffix_refl text
              | some entry =>
                  have hrest := (isLocal_piece hstop.hex).suffix hpiece
                  exact ((ih false entry.2).trans hrest).trans hsuffix

theorem pieces_append (first : Bool) (limit : Nat) (text behind : List Char) :
    pieces first limit (text ++ stop :: behind) =
      ((pieces first limit text).1, (pieces first limit text).2.1,
        (pieces first limit text).2.2 ++ stop :: behind) := by
  induction limit generalizing first text with
  | zero => rfl
  | succ limit ih =>
      rw [pieces_succ, pieces_succ, start?_append hstop.colon]
      cases start? first text with
      | none => rfl
      | some start =>
          dsimp only [Option.map_some]
          rw [(isLocal_embedded hstop limit).append]
          cases embedded? limit start with
          | some entry => rfl
          | none =>
              dsimp only [Option.map_none]
              rw [(isLocal_piece hstop.hex).append]
              cases piece? start with
              | none => rfl
              | some entry =>
                  dsimp only [Option.map_some]
                  rw [ih]

theorem isLocal_v6 : IsLocal stop v6? where
  suffix := by
    intro text value rest hread
    have hhead := pieces_suffix hstop true 8 text
    rw [v6?_eq] at hread
    split at hread
    · cases hread
      exact hhead
    · split at hread
      · cases hread
      · obtain ⟨behind, hdoubled, heq⟩ := Option.map_eq_some_iff.mp hread
        rw [suffix_of_doubled? hdoubled] at hhead
        cases heq
        have htail := pieces_suffix hstop true (7 - (pieces true 8 text).1.length) behind
        exact htail.trans ((List.suffix_append [':', ':'] behind).trans hhead)
  append := by
    intro text behind
    rw [v6?_eq, v6?_eq, pieces_append hstop]
    dsimp only
    split
    · rfl
    · split
      · rfl
      · rw [doubled?_append hstop.colon]
        cases doubled? (pieces true 8 text).2.2 with
        | none => rfl
        | some rest =>
            simp only [Option.map_some]
            rw [pieces_append hstop]

theorem isLocal_scope (hpercent : stop ≠ '%') : IsLocal stop scope? where
  suffix := by
    intro text value rest hread
    unfold scope? at hread
    split at hread
    · next inner =>
      exact ((isLocal_number hstop.decimal 10 _).suffix hread).trans (List.suffix_cons '%' inner)
    · cases hread
      exact List.suffix_refl text
  append := by
    intro text behind
    have hplain : ∀ {c : Char} (rest : List Char), c ≠ '%' → scope? (c :: rest) = some (0, c :: rest) := by
      intro c rest hc
      unfold scope?
      split
      · next heq => exact absurd (List.cons.inj heq).1 hc
      · rfl
    cases text with
    | nil => exact hplain behind hpercent
    | cons c text =>
        by_cases hc : c = '%'
        · subst hc
          exact (isLocal_number hstop.decimal 10 _).append text behind
        · rw [List.cons_append, hplain _ hc, hplain _ hc]
          rfl

end

/-! ## Ports -/

theorem valueOf_eq_ofDigitChars {digits : List Char} (hdigits : ∀ c ∈ digits, isDecimal c = true) :
    valueOf 10 digits = Nat.ofDigitChars 10 digits 0 := by
  have hfold : ∀ value, digits.foldl (fun value c => value * 10 + (hexValue? c).getD 0) value =
      Nat.ofDigitChars 10 digits value := by
    induction digits with
    | nil => exact fun value => rfl
    | cons c digits ih =>
        intro value
        obtain ⟨hc, hrest⟩ := List.forall_mem_cons.mp hdigits
        have hvalue : hexValue? c = some (c.toNat - 48) := by
          unfold hexValue?
          exact if_pos (by simpa [isDecimal] using hc)
        rw [List.foldl_cons, hvalue, Nat.mul_comm value 10]
        exact ih hrest _
  exact hfold 0

theorem isDecimal_of_mem_toString {number : Nat} {c : Char} (hmem : c ∈ (toString number).toList) :
    isDecimal c = true := by
  rw [show (toString number).toList = Nat.toDigits 10 number from String.toList_ofList] at hmem
  exact Nat.isDigit_of_mem_toDigits (by decide) (by decide) hmem

theorem number?_toString {port : Nat} (hport : port ≤ 65535) :
    number? 10 65535 isDecimal (toString port).toList = some (port, []) := by
  have hdigits : (toString port).toList = Nat.toDigits 10 port := String.toList_ofList
  have htake : (toString port).toList.takeWhile isDecimal = (toString port).toList :=
    List.takeWhile_eq_self_iff.mpr fun c => isDecimal_of_mem_toString
  have hdrop : (toString port).toList.dropWhile isDecimal = [] :=
    List.dropWhile_eq_nil_iff.mpr fun c => isDecimal_of_mem_toString
  have hvalue : valueOf 10 (toString port).toList = port := by
    rw [valueOf_eq_ofDigitChars fun c => isDecimal_of_mem_toString, hdigits]
    exact Nat.ofDigitChars_toDigits (by decide) (by decide)
  unfold number?
  dsimp only
  rw [htake, hdrop, hvalue, if_neg]
  rintro (hnil | hlarge)
  · rw [hdigits] at hnil
    exact Nat.toDigits_ne_nil hnil
  · exact Nat.not_lt.mpr hport hlarge

/-- A port is read where it starts, and not behind anything else. -/
theorem port?_append {port : Nat} (hport : port ≤ 65535) (text : List Char) :
    port? (text ++ ':' :: (toString port).toList) = if text = [] then some port else none := by
  cases text with
  | nil =>
      have hmark : mark? ':' (':' :: (toString port).toList) = some (toString port).toList := rfl
      unfold port?
      simp only [List.nil_append, hmark, Option.bind_eq_bind, Option.bind_some, number?_toString hport,
        if_true]
  | cons c text =>
      rw [if_neg (List.cons_ne_nil c text)]
      unfold port?
      by_cases hc : c = ':'
      · have hmark : mark? ':' (c :: text ++ ':' :: (toString port).toList) =
            some (text ++ ':' :: (toString port).toList) := if_pos hc
        have hlocal : IsLocal ':' (number? 10 65535 isDecimal) := isLocal_number (by decide) 10 65535
        rw [hmark, Option.bind_eq_bind, Option.bind_some, hlocal.append]
        cases number? 10 65535 isDecimal text with
        | none => rfl
        | some entry =>
            simp
      · have hmark : mark? ':' (c :: text ++ ':' :: (toString port).toList) = none := if_neg hc
        rw [hmark]
        rfl

/-! ## Hosts -/

def scoped? (text : List Char) : Option ((List Nat × Nat) × List Char) :=
  (v6? text).bind fun entry => (scope? entry.2).map fun scope => ((entry.1, scope.1), scope.2)

theorem isLocal_scoped : IsLocal ']' scoped? := by
  have hstop : StopsPieces ']' := ⟨by decide, by decide, by decide, by decide⟩
  exact (isLocal_v6 hstop).bind fun pieces =>
    (isLocal_scope hstop (by decide)).map fun scope => (pieces, scope)

/-- The text is read to its end as four numbers, or in brackets as pieces with an optional scope. -/
def IsHost (host : List Char) : Prop :=
  (∃ address, v4? host = some (address, [])) ∨
    ∃ inner address, host = '[' :: inner ++ [']'] ∧ scoped? inner = some (address, [])

theorem parse?_bracket {text : String} {rest : List Char} (htext : text.toList = '[' :: rest) :
    parse? text = (scoped? rest).bind fun entry => (mark? ']' entry.2).bind fun behind =>
      (port? behind).map fun port => .v6 entry.1.1 entry.1.2 port := by
  unfold parse? scoped?
  rw [htext]
  simp only [Option.bind_eq_bind, Option.pure_def, Option.bind_assoc, Option.map_eq_bind,
    Option.bind_some, Function.comp_def]

theorem parse?_plain {text : String} (htext : text.toList.head? ≠ some '[') :
    parse? text = (v4? text.toList).bind fun entry =>
      (port? entry.2).map fun port => .v4 entry.1 port := by
  unfold parse?
  split
  · next rest hbracket =>
    rw [hbracket] at htext
    exact absurd rfl htext
  · simp only [Option.bind_eq_bind, Option.pure_def, Option.map_eq_bind, Function.comp_def]

theorem v4?_bracket (rest : List Char) : v4? ('[' :: rest) = none := by
  have hoctet : octet? ('[' :: rest) = none := by
    simp [octet?, number?, isDecimal]
  unfold v4?
  rw [hoctet]
  rfl

theorem isHost_bracket_iff {before : List Char} (hopen : ']' ∉ before) (behind : List Char) :
    IsHost ('[' :: (before ++ ']' :: behind)) ↔
      behind = [] ∧ ∃ address, scoped? before = some (address, []) := by
  constructor
  · rintro (⟨address, hread⟩ | ⟨inner, address, hhost, hread⟩)
    · rw [v4?_bracket] at hread
      cases hread
    · have hinner := isLocal_scoped.stop_not_mem hread
      have hcut : Text.cut? ']' (before ++ ']' :: behind) = some (inner, []) := by
        rw [Text.cut?_eq_some_iff]
        exact ⟨hinner, (List.cons.inj hhost).2⟩
      rw [Text.cut?_eq_some_iff.mpr ⟨hopen, rfl⟩] at hcut
      cases hcut
      exact ⟨rfl, address, hread⟩
  · rintro ⟨rfl, address, hread⟩
    exact Or.inr ⟨before, address, rfl, hread⟩

/-- The bracket is closed where the pieces end. -/
theorem mark?_of_suffix {mark : Char} {rest before : List Char} (hsuffix : rest <:+ before)
    (hmark : mark ∉ before) (behind : List Char) :
    mark? mark (rest ++ mark :: behind) = if rest = [] then some behind else none := by
  cases rest with
  | nil => exact if_pos rfl
  | cons c rest =>
      have hc : c ≠ mark := by
        rintro rfl
        exact hmark (hsuffix.subset (.head rest))
      exact if_neg hc

theorem parse?_plain_isSome_iff {host : List Char} (hplain : host.head? ≠ some '[') {text : String}
    {port : Nat} (hport : port ≤ 65535)
    (htext : text.toList = host ++ ':' :: (toString port).toList) :
    (parse? text).isSome ↔ IsHost host := by
  have hhead : text.toList.head? ≠ some '[' := by
    rw [htext]
    cases host with
    | nil => exact by simp
    | cons c host => exact hplain
  have hlocal : IsLocal ':' v4? := isLocal_v4 (by decide) (by decide)
  rw [parse?_plain hhead, htext, hlocal.append]
  constructor
  · intro hsome
    cases hread : v4? host with
    | none => simp [hread] at hsome
    | some entry =>
        obtain ⟨address, rest⟩ := entry
        rw [hread] at hsome
        simp only [Option.map_some, Option.bind_some, port?_append hport] at hsome
        split at hsome
        · next hrest => exact Or.inl ⟨address, hrest ▸ hread⟩
        · cases hsome
  · rintro (⟨address, hread⟩ | ⟨inner, address, rfl, -⟩)
    · have hend := port?_append hport []
      rw [if_pos rfl] at hend
      simp only [hread, Option.map_some, Option.bind_some, hend, Option.isSome_some]
    · exact absurd rfl hplain

theorem parse?_bracket_isSome_iff {rest : List Char} {text : String} {port : Nat} (hport : port ≤ 65535)
    (htext : text.toList = '[' :: (rest ++ ':' :: (toString port).toList)) :
    (parse? text).isSome ↔ IsHost ('[' :: rest) := by
  rw [parse?_bracket htext]
  cases hcut : Text.cut? ']' rest with
  | none =>
      -- Without a closing bracket nothing is read to a port.
      have hopen := Text.cut?_eq_none_iff.mp hcut
      have hall : ']' ∉ rest ++ ':' :: (toString port).toList := by
        intro hmem
        rcases List.mem_append.mp hmem with hrest | hport
        · exact hopen hrest
        · rcases List.mem_cons.mp hport with heq | hdigit
          · cases heq
          · exact absurd (isDecimal_of_mem_toString hdigit) (by decide)
      have hnot : ¬ IsHost ('[' :: rest) := by
        rintro (⟨address, hread⟩ | ⟨inner, address, hhost, -⟩)
        · rw [v4?_bracket] at hread
          cases hread
        · exact hopen (by rw [(List.cons.inj hhost).2]; simp)
      refine ⟨fun hsome => ?_, fun hhost => absurd hhost hnot⟩
      cases hread : scoped? (rest ++ ':' :: (toString port).toList) with
      | none =>
          rw [hread] at hsome
          cases hsome
      | some entry =>
          cases hmark : mark? ']' entry.2 with
          | none =>
              rw [hread, Option.bind_some, hmark] at hsome
              cases hsome
          | some inner =>
              have hsuffix := isLocal_scoped.suffix hread
              rw [suffix_of_mark? hmark] at hsuffix
              exact absurd (hsuffix.subset (.head inner)) hall
  | some parts =>
      obtain ⟨before, behind⟩ := parts
      obtain ⟨hopen, rfl⟩ := Text.cut?_eq_some_iff.mp hcut
      rw [isHost_bracket_iff hopen, List.append_assoc, List.cons_append, isLocal_scoped.append]
      cases hread : scoped? before with
      | none => simp
      | some entry =>
          obtain ⟨address, left⟩ := entry
          simp only [Option.map_some, Option.bind_some,
            mark?_of_suffix (isLocal_scoped.suffix hread) hopen]
          cases left with
          | nil =>
              simp only [if_true, Option.bind_some, port?_append hport]
              split
              · next hbehind => simp [hbehind]
              · next hbehind => simp [hbehind]
          | cons c left => simp

/-- A host and a port are an address if and only if the host is read to its end. -/
theorem parse?_isSome_iff (host : String) {port : Nat} (hport : port ≤ 65535) :
    (parse? (host ++ ":" ++ toString port)).isSome ↔ IsHost host.toList := by
  have htext : (host ++ ":" ++ toString port).toList = host.toList ++ ':' :: (toString port).toList := by
    rw [String.toList_append, String.toList_append, List.append_assoc]
    rfl
  by_cases hbracket : host.toList.head? = some '['
  · cases hhost : host.toList with
    | nil => rw [hhost] at hbracket; cases hbracket
    | cons c rest =>
        rw [hhost] at hbracket htext
        cases Option.some.inj hbracket
        exact parse?_bracket_isSome_iff hport htext
  · exact parse?_plain_isSome_iff hbracket hport htext

end ApiGateway.Net.SocketAddress
