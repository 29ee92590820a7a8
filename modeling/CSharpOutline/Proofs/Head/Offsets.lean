import CSharpOutline.Proofs.Head.Places
import CSharpOutline.Proofs.Member.Body

/-!
# Reading a head by offsets

The parser hands on the part of the text that it has not read yet, so it cannot look outside the
text. Here a head is read by offsets instead: each stage gets the offset at which it starts and
gives the one at which it ends, and the character at an offset, or the group that starts there, is
asked for with a fault if there is none. This reading meets no fault and finds the same head
(`Head.readAt_eq`): whenever it looks at a character, the offset is inside the text.

An offset stands for the suffix that starts there (`Text.offsetOf`), and each stage at an offset is
the stage of the parser at that suffix.
-/

namespace CSharpOutline

namespace Text

/-! ## Offsets and suffixes -/

def offsetOf (t suffix : Text) : Nat := t.length - suffix.length

def charAt (t : Text) (i : Nat) : Except Fault Char :=
  match item? t i with
  | some c => .ok c
  | none => .error .noCharacter

/-- The offset behind the group that starts at an offset, or that offset if none starts there. -/
def groupEndAt (t : Text) (i : Nat) : Except Fault Nat := (t.afterGroupAt i).map Int.toNat

/-- Whether `c` stands at an offset, if the text goes on that far. -/
def isAt (t : Text) (i : Nat) (c : Char) : Except Fault Bool :=
  if i < t.length then (t.charAt i).map (· == c) else .ok false

/-- The offset behind the blanks that start at an offset. -/
def blanksEndAt (t : Text) (i : Nat) : Nat := t.offsetOf (trimStart (t.drop i))

@[simp] theorem offsetOf_nil (t : Text) : t.offsetOf [] = t.length := rfl

section

variable {t : Text}

theorem drop_offsetOf {r : Text} (h : r <:+ t) : t.drop (t.offsetOf r) = r :=
  Verdict.drop_of_suffix h

theorem offsetOf_drop {i : Nat} (h : i ≤ t.length) : t.offsetOf (t.drop i) = i := by
  rw [offsetOf, List.length_drop]
  omega

theorem offsetOf_lt_iff {r : Text} (h : r <:+ t) : t.offsetOf r < t.length ↔ r ≠ [] := by
  have hle := h.length_le
  rw [offsetOf, ← List.length_pos_iff]
  omega

private theorem offsetOf_cons_succ {c : Char} {r : Text} (h : c :: r <:+ t) :
    t.offsetOf (c :: r) + 1 = t.offsetOf r := by
  have hle := h.length_le
  rw [offsetOf, offsetOf]
  rw [List.length_cons] at hle ⊢
  omega

theorem item?_offsetOf {c : Char} {r : Text} (h : c :: r <:+ t) :
    item? t (t.offsetOf (c :: r) : Nat) = some c := by
  have hlt : t.offsetOf (c :: r) < t.length := (offsetOf_lt_iff h).mpr (List.cons_ne_nil c r)
  have hget := congrArg List.head? (drop_offsetOf h)
  rw [List.head?_drop, List.head?_cons] at hget
  rw [item?, position?_natCast hlt, Option.bind_some, hget]

theorem charAt_offsetOf {c : Char} {r : Text} (h : c :: r <:+ t) :
    t.charAt (t.offsetOf (c :: r)) = .ok c := by
  rw [charAt, item?_offsetOf h]

theorem isAt_offsetOf {r : Text} (h : r <:+ t) (c : Char) :
    t.isAt (t.offsetOf r) c = .ok (r.head? == some c) := by
  rw [isAt]
  rcases r with - | ⟨d, r⟩
  · rw [if_neg (by simp)]
    rfl
  · rw [if_pos ((offsetOf_lt_iff h).mpr (List.cons_ne_nil d r)), charAt_offsetOf h]
    rfl

theorem blanksEndAt_offsetOf {r : Text} (h : r <:+ t) :
    t.blanksEndAt (t.offsetOf r) = t.offsetOf r.trimStart := by
  rw [blanksEndAt, drop_offsetOf h]

private theorem closing?_lt {k : Nat} (h : closing? t = some k) : k < t.length := by
  rcases t with - | ⟨c, t⟩
  · exact absurd h (by simp [closing?])
  · rw [closing?] at h
    split at h
    · exact absurd h (by simp)
    · exact Balance.stopOffset?_lt h

theorem groupEndAt_offsetOf {r : Text} (h : r <:+ t) :
    t.groupEndAt (t.offsetOf r) = .ok (t.offsetOf r.afterGroup) := by
  rcases r with - | ⟨c, r⟩
  · rw [groupEndAt, afterGroupAt, if_pos (by simp)]
    rfl
  · have hlt : t.offsetOf (c :: r) < t.length := (offsetOf_lt_iff h).mpr (List.cons_ne_nil c r)
    rw [groupEndAt, afterGroupAt, if_neg (by omega), item?_offsetOf h, afterGroup]
    dsimp only
    split
    · rw [closingAt_natCast hlt, drop_offsetOf h]
      cases hclose : closing? (c :: r) with
      | none => rfl
      | some k =>
        have hk := closing?_lt hclose
        have hle := h.length_le
        have hdrop : t.offsetOf (c :: r) + k + 1 = t.offsetOf (r.drop k) := by
          rw [offsetOf, offsetOf, List.length_drop]
          rw [List.length_cons] at hk hle ⊢
          omega
        rw [Option.elim_some, ← hdrop]
        dsimp only [bind, Except.bind, pure, Except.pure, Except.map]
        rw [if_neg (by omega)]
        rfl
    · rfl

private theorem drop_of_charAt {i : Nat} {c : Char} (h : t.charAt i = .ok c) (hi : i < t.length) :
    ∃ r, t.drop i = c :: r := by
  have hcons := List.drop_eq_getElem_cons hi
  have hchar := charAt_offsetOf (hcons ▸ List.drop_suffix i t)
  rw [← hcons, offsetOf_drop hi.le, h, Except.ok.injEq] at hchar
  exact ⟨t.drop (i + 1), by rw [hcons, hchar]⟩

/-- A group takes up some of the text. -/
theorem lt_of_groupEndAt {i j : Nat} (hi : i < t.length) (hc : t.charAt i = .ok '<')
    (h : t.groupEndAt i = .ok j) : i < j := by
  obtain ⟨r, hr⟩ := drop_of_charAt hc hi
  have hgroup := groupEndAt_offsetOf (t.drop_suffix i)
  rw [offsetOf_drop hi.le, h, Except.ok.injEq, hr] at hgroup
  have hlt := length_afterGroup_lt r (.inl rfl)
  rw [← hr, List.length_drop] at hlt
  rw [hgroup, offsetOf, ← hr]
  omega

end

end Text

namespace Text

/-- The search for the end of a bracket may start at the bracket or behind it. -/
theorem after?_bracket (t : Text) : after? ']' ('[' :: t) = after? ']' t := by
  rw [after?, if_neg (by decide)]

end Text

namespace Head

open Text

/-! ## The stages at an offset -/

/-- The offset behind the attributes that start at an offset, if all of them are closed. -/
def attributesAt (text : Text) (i : Nat) : Except Fault (Option Nat) :=
  if _hi : i < text.length then
    match text.charAt i with
    | .error fault => .error fault
    | .ok c =>
      if c = '[' then
        match _hclose : after? ']' (text.drop i) with
        | none => .ok none
        | some rest => attributesAt text (text.offsetOf rest.trimStart)
      else .ok (some i)
  else .ok (some i)
termination_by text.length - i
decreasing_by
  have h₁ := length_lt_of_after? _hclose
  have h₂ := length_trimStart_le rest
  rw [List.length_drop] at h₁
  rw [offsetOf]
  omega

/-- The offset behind the suffixes of a type that start at an offset, if its ranks are closed. -/
def suffixesAt (text : Text) (i : Nat) : Except Fault (Option Nat) :=
  if _hi : i < text.length then
    match _hchar : text.charAt i with
    | .error fault => .error fault
    | .ok c =>
      if _hc : c = '<' then
        match _hgroup : text.groupEndAt i with
        | .error fault => .error fault
        | .ok j => suffixesAt text j
      else if c = '?' ∨ c = '*' then suffixesAt text (i + 1)
      else if c = '[' then
        match _hclose : after? ']' (text.drop i) with
        | none => .ok none
        | some rest => suffixesAt text (text.offsetOf rest)
      else .ok (some i)
  else .ok (some i)
termination_by text.length - i
decreasing_by
  · have hlt := lt_of_groupEndAt _hi (_hc ▸ _hchar) _hgroup
    omega
  · omega
  · have h' := length_lt_of_after? _hclose
    rw [List.length_drop] at h'
    rw [offsetOf]
    omega

/-- The boundary at an offset: `none` if no boundary is written there, `some none` if the text ends
there. -/
def boundaryOf (text : Text) (i : Nat) : Except Fault (Option (Option Boundary)) :=
  if text.length ≤ i then .ok (some none)
  else if startsWith (text.drop i) Boundary.arrow.symbol.toList then .ok (some (some .arrow))
  else do
    let c ← text.charAt i
    return if c = '(' then some (some .parameters)
      else if c = '\x7b' then some (some .accessors)
      else if c = '=' then some (some .initializer)
      else if c = ';' ∨ c = ',' then some (some .terminator)
      else none

def parametersEndAt (text : Text) (i : Nat) : Except Fault Nat := do
  if ← text.isAt i '<' then text.groupEndAt i else return i

/-- The head whose name has been read, `rest` being the offset behind it. -/
def namedAt (text : Text) (nameStart : Nat) (name : Text) (rest : Nat) (hasModifiers : Bool) :
    Except Fault (Option Head) := do
  let boundaryStart := text.blanksEndAt (← parametersEndAt text rest)
  return (← boundaryOf text boundaryStart).map fun boundary ↦
    { name, nameStart, boundary, boundaryStart, hasModifiers }

/-- Whether a parameter list starts at an offset, directly behind a type which is no tuple. -/
def isCallAt (text : Text) (i : Nat) (isTuple : Bool) : Except Fault Bool :=
  if isTuple then .ok false else text.isAt i '('

def behindTypeAt (text : Text) (start stop : Nat) (isTuple hasModifiers : Bool) :
    Except Fault (Option Head) := do
  let named := text.blanksEndAt stop
  if ← isCallAt text named isTuple then
    return some
      { name := (text.drop start).take (stop - start)
        nameStart := start
        boundary := some .parameters
        boundaryStart := named
        hasModifiers }
  else match name? isNamePart (text.drop named) with
    | none => return if text.length ≤ named then some (incomplete text) else none
    | some (name, rest) =>
      if !isTuple ∧ named = stop then return none
      else namedAt text named name (text.offsetOf rest) hasModifiers

/-- The offset behind the type that starts at an offset, a tuple or a name, without its suffixes. -/
def typeEndAt (text : Text) (i : Nat) (isTuple : Bool) : Except Fault (Option Nat) :=
  if isTuple then (text.groupEndAt i).map some
  else .ok ((afterTypeName? (text.drop i)).map text.offsetOf)

def typedAt (text : Text) (i : Nat) (hasModifiers : Bool) : Except Fault (Option Head) :=
  if text.length ≤ i then .ok (some (incomplete text))
  else do
    let isTuple := (← text.charAt i) == '('
    match ← typeEndAt text i isTuple with
    | none => return none
    | some suffixed =>
      match ← suffixesAt text suffixed with
      | none => return some (incomplete text)
      | some stop => behindTypeAt text i stop isTuple hasModifiers

def readAt (text : Text) : Except Fault (Option Head) := do
  match ← attributesAt text (text.blanksEndAt 0) with
  | none => return none
  | some declared =>
    let (hasModifiers, typed) := dropKeywords memberModifiers (text.drop declared)
    typedAt text (text.offsetOf typed) hasModifiers

/-! ## Agreement with the parser

Every offset is that of a suffix, and each stage finds the suffix that the parser is left with. -/

private theorem afterSuffixes?_angle (t : Text) :
    afterSuffixes? ('<' :: t) = afterSuffixes? (afterGroup ('<' :: t)) := by
  rw [afterSuffixes?, dif_pos rfl]

private theorem afterSuffixes?_mark {c : Char} (hc : c = '?' ∨ c = '*') (t : Text) :
    afterSuffixes? (c :: t) = afterSuffixes? t := by
  have hangle : ¬c = '<' := by rcases hc with rfl | rfl <;> decide
  rw [afterSuffixes?, dif_neg hangle, if_pos hc]

private theorem afterSuffixes?_rank (t : Text) :
    afterSuffixes? ('[' :: t) = (after? ']' t).bind afterSuffixes? := by
  rw [afterSuffixes?, dif_neg (by decide), if_neg (by decide), if_pos rfl]
  split
  · next h =>
    rw [h]
    rfl
  · next h =>
    rw [h]
    rfl

section

variable {text : Text}

private theorem attributesAt_offsetOf {r : Text} (h : r <:+ text) :
    attributesAt text (text.offsetOf r) = .ok ((afterAttributes? r).map text.offsetOf) := by
  -- each attribute makes the text shorter
  induction hn : r.length using Nat.strongRecOn generalizing r with
  | ind n ih =>
    rw [attributesAt]
    rcases r with - | ⟨c, r⟩
    · rw [dif_neg (by simp), afterAttributes?_nil]
      rfl
    · rw [dif_pos ((offsetOf_lt_iff h).mpr (List.cons_ne_nil c r)), charAt_offsetOf h]
      dsimp only
      by_cases hc : c = '['
      · subst hc
        rw [if_pos rfl, drop_offsetOf h, afterAttributes?_bracket]
        split
        · next hnone =>
          rw [← after?_bracket, hnone]
          rfl
        · next rest hrest =>
          have hlt := length_lt_of_after? hrest
          have hle := length_trimStart_le rest
          rw [← after?_bracket, hrest, Option.bind_some]
          exact ih _ (by omega) (((trimStart_suffix rest).trans (after?_suffix hrest)).trans h) rfl
      · rw [if_neg hc, afterAttributes?_cons_of_ne hc]
        rfl

private theorem suffixesAt_offsetOf {r : Text} (h : r <:+ text) :
    suffixesAt text (text.offsetOf r) = .ok ((afterSuffixes? r).map text.offsetOf) := by
  -- each suffix makes the text shorter
  induction hn : r.length using Nat.strongRecOn generalizing r with
  | ind n ih =>
    rw [suffixesAt]
    rcases r with - | ⟨c, r⟩
    · rw [dif_neg (by simp), afterSuffixes?]
      rfl
    · have hsuffix : r <:+ text := (List.suffix_cons c r).trans h
      rw [List.length_cons] at hn
      rw [dif_pos ((offsetOf_lt_iff h).mpr (List.cons_ne_nil c r))]
      split
      · next hchar => exact absurd ((charAt_offsetOf h).symm.trans hchar) (by simp)
      · next d hchar =>
        obtain rfl : c = d := Except.ok.inj ((charAt_offsetOf h).symm.trans hchar)
        by_cases hangle : c = '<'
        · subst hangle
          have hlt := length_afterGroup_lt r (.inl rfl)
          rw [List.length_cons] at hlt
          rw [dif_pos rfl, afterSuffixes?_angle]
          split
          · next hgroup => exact absurd ((groupEndAt_offsetOf h).symm.trans hgroup) (by simp)
          · next j hgroup =>
            obtain rfl := Except.ok.inj ((groupEndAt_offsetOf h).symm.trans hgroup)
            exact ih _ (by omega) ((afterGroup_suffix _).trans h) rfl
        · rw [dif_neg hangle]
          by_cases hmark : c = '?' ∨ c = '*'
          · rw [if_pos hmark, afterSuffixes?_mark hmark, offsetOf_cons_succ h]
            exact ih _ (by omega) hsuffix rfl
          · rw [if_neg hmark]
            by_cases hrank : c = '['
            · subst hrank
              rw [if_pos rfl, drop_offsetOf h, afterSuffixes?_rank]
              split
              · next hnone =>
                rw [← after?_bracket, hnone]
                rfl
              · next rest hrest =>
                rw [after?_bracket] at hrest
                have hlt := length_lt_of_after? hrest
                rw [hrest, Option.bind_some]
                exact ih _ (by omega) ((after?_suffix hrest).trans hsuffix) rfl
            · rw [if_neg hrank, afterSuffixes?_other (by simp [hangle, hrank, not_or.mp hmark])]
              rfl

private theorem boundaryOf_offsetOf {r : Text} (h : r <:+ text) :
    boundaryOf text (text.offsetOf r) = .ok (Boundary.read? r) := by
  rw [boundaryOf]
  rcases r with - | ⟨c, r⟩
  · rw [if_pos (by simp)]
    rfl
  · have hlt := (offsetOf_lt_iff h).mpr (List.cons_ne_nil c r)
    have harrow : startsWith (c :: r) Boundary.arrow.symbol.toList = true ↔
        c = '=' ∧ r.head? = some '>' := by
      rw [startsWith_iff, List.head?_eq_some_iff]
      constructor
      · rintro ⟨s, hs⟩
        obtain ⟨rfl, rfl⟩ := List.cons.inj hs
        exact ⟨rfl, s, rfl⟩
      · rintro ⟨rfl, s, rfl⟩
        exact ⟨s, rfl⟩
    rw [if_neg (by omega), drop_offsetOf h, charAt_offsetOf h, Boundary.read?_cons]
    dsimp only [bind, Except.bind, pure, Except.pure]
    by_cases hstart : c = '=' ∧ r.head? = some '>'
    · rw [if_pos (harrow.mpr hstart), if_pos hstart.1, if_pos hstart.2]
    · rw [if_neg (mt harrow.mp hstart)]
      by_cases hc : c = '='
      · have hhead : r.head? ≠ some '>' := fun hhead ↦ hstart ⟨hc, hhead⟩
        rw [if_pos hc, if_neg hhead, hc]
        rfl
      · grind

private theorem parametersEndAt_offsetOf {r : Text} (h : r <:+ text) :
    parametersEndAt text (text.offsetOf r) = .ok (text.offsetOf (parametersEnd r)) := by
  rw [parametersEndAt, isAt_offsetOf h, parametersEnd]
  dsimp only [bind, Except.bind, pure, Except.pure]
  split
  · next hangle => rw [if_pos (by simpa using hangle), groupEndAt_offsetOf h]
  · next hangle => rw [if_neg (by simpa using hangle)]

private theorem namedAt_offsetOf {named name rest : Text} (h : rest <:+ text)
    (hasModifiers : Bool) :
    namedAt text (text.offsetOf named) name (text.offsetOf rest) hasModifiers =
      .ok (ofName? text named name rest hasModifiers) := by
  have hsuffix := (parametersEnd_suffix rest).trans h
  rw [namedAt, parametersEndAt_offsetOf h]
  dsimp only [bind, Except.bind]
  rw [blanksEndAt_offsetOf hsuffix, boundaryOf_offsetOf ((trimStart_suffix _).trans hsuffix)]
  rfl

private theorem isCallAt_offsetOf {r : Text} (h : r <:+ text) (isTuple : Bool) :
    isCallAt text (text.offsetOf r) isTuple = .ok (!isTuple && r.head? == some '(') := by
  cases isTuple with
  | false => exact isAt_offsetOf h '('
  | true => rfl

private theorem behindTypeAt_offsetOf {typed rest : Text} (htyped : typed <:+ text)
    (h : rest <:+ typed) (isTuple hasModifiers : Bool) :
    behindTypeAt text (text.offsetOf typed) (text.offsetOf rest) isTuple hasModifiers =
      .ok (ofType? text typed rest isTuple hasModifiers) := by
  have hrest := h.trans htyped
  have hnamed := (trimStart_suffix rest).trans hrest
  have hle := h.length_le
  have hlength := htyped.length_le
  have htake : text.offsetOf rest - text.offsetOf typed = typed.length - rest.length := by
    rw [offsetOf, offsetOf]
    omega
  rw [behindTypeAt, blanksEndAt_offsetOf hrest, isCallAt_offsetOf hnamed, drop_offsetOf hnamed,
    drop_offsetOf htyped, htake, ofType?]
  dsimp only [bind, Except.bind, pure, Except.pure]
  by_cases hcall : (!isTuple) = true ∧ rest.trimStart.head? = some '('
  · rw [if_pos hcall, if_pos (by simpa using hcall)]
    rfl
  · rw [if_neg hcall, if_neg (by simpa using hcall)]
    cases hname : name? isNamePart rest.trimStart with
    | none =>
      have hended : text.length ≤ text.offsetOf rest.trimStart ↔ rest.trimStart.isEmpty = true := by
        rw [← not_lt, offsetOf_lt_iff hnamed, not_not, List.isEmpty_iff]
      simp only [hended]
    | some p =>
      obtain ⟨name, afterName⟩ := p
      have hafter : afterName <:+ text := by
        obtain ⟨heq, -⟩ := name?_eq_some_iff.mp hname
        exact List.IsSuffix.trans ⟨name, heq.symm⟩ hnamed
      have hdirect : text.offsetOf rest.trimStart = text.offsetOf rest ↔
          rest.trimStart.length = rest.length := by
        have hle := length_trimStart_le rest
        rw [offsetOf, offsetOf]
        omega
      simp only [hdirect, namedAt_offsetOf hafter]
      split
      · rfl
      · rfl

private theorem typeEndAt_offsetOf {r : Text} (h : r <:+ text) :
    typeEndAt text (text.offsetOf r) (r.head? == some '(') =
      .ok ((afterType? r).map text.offsetOf) := by
  rw [typeEndAt, afterType?, groupEndAt_offsetOf h, drop_offsetOf h]
  split
  · next htuple =>
    rw [if_pos (by simpa using htuple)]
    rfl
  · next htuple => rw [if_neg (by simpa using htuple)]

private theorem typedAt_offsetOf {typed : Text} (h : typed <:+ text) (hasModifiers : Bool) :
    typedAt text (text.offsetOf typed) hasModifiers =
      .ok ((shown? typed).map (ofShown text hasModifiers)) := by
  rw [typedAt, shown?]
  rcases typed with - | ⟨c, t⟩
  · rw [if_pos (by simp)]
    rfl
  · have hlt := (offsetOf_lt_iff h).mpr (List.cons_ne_nil c t)
    have htype := typeEndAt_offsetOf h
    rw [List.head?_cons] at htype
    rw [if_neg (by omega), if_neg (by simp), charAt_offsetOf h]
    dsimp only [bind, Except.bind, pure, Except.pure]
    rw [show (c == '(') = (some c == some '(') from rfl, htype]
    cases hafter : afterType? (c :: t) with
    | none => rfl
    | some suffixed =>
      have hsuffixed := afterType?_suffix hafter
      rw [Option.map_some, Option.bind_some]
      dsimp only
      rw [suffixesAt_offsetOf (hsuffixed.trans h)]
      cases hrest : afterSuffixes? suffixed with
      | none => rfl
      | some rest =>
        rw [Option.map_some]
        dsimp only
        rw [behindTypeAt_offsetOf h ((afterSuffixes?_suffix hrest).trans hsuffixed),
          ← ofType?_eq_shownBehind?]
        rfl

/-- Reading by offsets meets no fault and finds the head that the parser finds. -/
theorem readAt_eq (text : Text) : readAt text = .ok (parse? text) := by
  have hblanks : text.blanksEndAt 0 = text.offsetOf text.trimStart := rfl
  rw [readAt, hblanks, attributesAt_offsetOf (trimStart_suffix text), parse?_eq_shown?]
  dsimp only [bind, Except.bind]
  cases hdeclared : afterAttributes? text.trimStart with
  | none => rfl
  | some declared =>
    have hsuffix := (afterAttributes?_suffix hdeclared).trans (trimStart_suffix text)
    rw [Option.map_some]
    dsimp only
    rw [drop_offsetOf hsuffix, Option.bind_some]
    exact typedAt_offsetOf ((dropKeywords_suffix _ declared).trans hsuffix) _

end

/-- A head can be read without looking outside the text, and it points at what it says. -/
theorem parse?_pointsInto (text : Text) :
    readAt text = .ok (parse? text) ∧ ∀ h, parse? text = some h → h.PointsInto text :=
  ⟨readAt_eq text, fun _ hparse ↦ pointsInto_of_parse? hparse⟩

theorem parse?_pointsInto_field :
    readAt "[Key] static Map<int>[] byName , byAge".toList =
        .ok (some ⟨"byName".toList, 24, some .terminator, 31, true⟩) ∧
      PointsInto "[Key] static Map<int>[] byName , byAge".toList
        ⟨"byName".toList, 24, some .terminator, 31, true⟩ := by
  have hparse : parse? "[Key] static Map<int>[] byName , byAge".toList =
      some ⟨"byName".toList, 24, some .terminator, 31, true⟩ := by
    decide +kernel
  obtain ⟨hread, hpoints⟩ := parse?_pointsInto "[Key] static Map<int>[] byName , byAge".toList
  exact ⟨hread.trans (congrArg Except.ok hparse), hpoints _ hparse⟩

end Head

end CSharpOutline
