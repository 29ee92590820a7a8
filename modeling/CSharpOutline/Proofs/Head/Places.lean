import CSharpOutline.Proofs.Head.Reads
import CSharpOutline.Proofs.Member.Reading

/-!
# What a head points at

A head gives its name and its boundary twice: as they are written, and by their offsets. Callers cut
the text at these offsets without looking again. `Head.PointsInto` says that the text has at the
offsets what the head says, and that a head is left open only where the text ends
(`Head.pointsInto_of_parse?`).

What is read of a declaration once its modifiers are taken off does not depend on what stands in
front, only the offsets do. So the parser is split there (`Head.parse?_eq_shown?`): `Head.shown?`
gives the parts of the text from the name and from the boundary on, and `Head.ofShown` counts the
offsets.
-/

namespace CSharpOutline

/-! ## What is shown behind the modifiers

The parser takes off attributes and modifiers, looks at what is shown behind them, and counts the
offsets in the whole text. -/

/-- A name and what follows it, as parts of a text. -/
structure NamedPart where
  /-- The text from the name on. -/
  text : Text
  name : Text
  /-- The text from the boundary on. -/
  rest : Text
  boundary : Option Boundary

/-- The name stands at the start of its part of the text, and the boundary behind it. -/
structure NamedPart.IsPlaced (p : NamedPart) : Prop where
  ne_nil : p.name ≠ []
  name : ∃ between, p.text = p.name ++ (between ++ p.rest)
  boundary : Boundary.read? p.rest = some p.boundary

namespace Head

/-- What is shown where `rest` follows the type that `typed` starts with: `none` if it is no member,
`some none` if the text ends before the name is known. -/
def shownBehind? (typed rest : Text) : Option (Option NamedPart) :=
  match named? typed rest with
  | none => if rest.trimStart.isEmpty then some none else none
  | some (name, rest') =>
    (Boundary.read? rest').map fun boundary ↦
      some ⟨namedText typed rest, name, rest', boundary⟩

/-- What the text behind the modifiers shows. -/
def shown? (typed : Text) : Option (Option NamedPart) :=
  if typed.isEmpty then some none
  else (afterType? typed).bind fun suffixed ↦
    match afterSuffixes? suffixed with
    | none => some none
    | some rest => shownBehind? typed rest

/-- The head of `text`, given what is shown behind its modifiers. -/
def ofShown (text : Text) (hasModifiers : Bool) : Option NamedPart → Head
  | none => incomplete text
  | some p =>
    { name := p.name
      nameStart := text.length - p.text.length
      boundary := p.boundary
      boundaryStart := text.length - p.rest.length
      hasModifiers }

private theorem ofType?_of_named?_eq_none {text typed after : Text} (h : named? typed after = none)
    (hasModifiers : Bool) :
    ofType? text typed after (typed.head? == some '(') hasModifiers =
      if after.trimStart.isEmpty then some (incomplete text) else none := by
  rw [named?] at h
  rw [ofType?]
  split at h
  · exact absurd h (by simp)
  · next hparen =>
    rw [if_neg (by simpa using hparen)]
    cases hname : Text.name? isNamePart after.trimStart with
    | none => rfl
    | some p =>
      obtain ⟨name, rest⟩ := p
      rw [hname, Option.map_some] at h
      split at h
      · exact absurd h (by simp)
      · next hblank =>
        -- a name directly behind a type which is no tuple is part of the type
        have hne : after.trimStart ≠ [] := by
          intro hnil
          rw [hnil] at hname
          exact absurd hname (by simp [Text.name?])
        have hafter : after ≠ [] := by
          rintro rfl
          exact hne rfl
        rw [not_or] at hblank
        have hlength := (Text.length_trimStart_eq_iff hafter).mpr (by simpa using hblank.2)
        dsimp only
        rw [if_pos ⟨by simpa using hblank.1, hlength⟩, if_neg (by simpa using hne)]

theorem ofType?_eq_shownBehind? (text typed rest : Text) (hasModifiers : Bool) :
    ofType? text typed rest (typed.head? == some '(') hasModifiers =
      (shownBehind? typed rest).map (ofShown text hasModifiers) := by
  rw [shownBehind?]
  cases hname : named? typed rest with
  | none =>
    rw [ofType?_of_named?_eq_none hname]
    dsimp only
    split
    · rfl
    · rfl
  | some p =>
    obtain ⟨name, rest'⟩ := p
    rw [ofType?_of_named? hname, Option.map_map]
    rfl

/-- The parser takes off attributes and modifiers, looks at what is shown behind them, and counts
the offsets in the whole text. -/
theorem parse?_eq_shown? (text : Text) :
    parse? text = (afterAttributes? text.trimStart).bind fun declared ↦
      (shown? (Text.dropKeywords memberModifiers declared).2).map
        (ofShown text (Text.dropKeywords memberModifiers declared).1) := by
  rw [parse?]
  cases afterAttributes? text.trimStart with
  | none => rfl
  | some declared =>
    rw [Option.bind_some]
    dsimp only
    generalize (Text.dropKeywords memberModifiers declared).1 = hasModifiers
    generalize (Text.dropKeywords memberModifiers declared).2 = typed
    rw [shown?]
    by_cases hnil : typed.isEmpty = true
    · rw [if_pos hnil, if_pos hnil]
      rfl
    · have htype : (if (typed.head? == some '(') = true then some typed.afterGroup
          else afterTypeName? typed) = afterType? typed := by
        simp [afterType?]
      rw [if_neg hnil, if_neg hnil, htype]
      cases afterType? typed with
      | none => rfl
      | some suffixed =>
        rw [Option.bind_some]
        dsimp only
        cases afterSuffixes? suffixed with
        | none => rfl
        | some rest => exact ofType?_eq_shownBehind? text typed rest hasModifiers

/-- Where a name is read, the type in front of it, or the name of a constructor, is not empty. -/
theorem isPlaced_of_named? {typed suffixed after name rest : Text}
    (htype : afterType? typed = some suffixed) (hafter : afterSuffixes? suffixed = some after)
    (h : named? typed after = some (name, rest)) {boundary : Option Boundary}
    (hread : Boundary.read? rest = some boundary) :
    NamedPart.IsPlaced ⟨namedText typed after, name, rest, boundary⟩ := by
  rw [named?] at h
  rw [namedText]
  split at h
  · next hcall =>
    obtain ⟨rfl, rfl⟩ := Prod.mk.inj (Option.some.inj h)
    obtain ⟨type, rfl⟩ := (afterSuffixes?_suffix hafter).trans (afterType?_suffix htype)
    have hlt := length_lt_of_afterType? htype
    have hle := (afterSuffixes?_suffix hafter).length_le
    obtain ⟨between, hbetween⟩ := Text.trimStart_suffix after
    have htake : (type ++ after).take ((type ++ after).length - after.length) = type := by
      rw [List.length_append, Nat.add_sub_cancel, List.take_left]
    rw [if_pos hcall, htake]
    refine ⟨?_, ⟨between, by rw [hbetween]⟩, hread⟩
    rintro rfl
    rw [List.nil_append] at hlt
    omega
  · next hcall =>
    rw [if_neg hcall]
    split at h
    · obtain ⟨p, hp, heq⟩ := Option.map_eq_some_iff.mp h
      obtain ⟨rfl, rfl⟩ := Prod.mk.inj heq
      obtain ⟨hname, -, hlt⟩ := name?_eq_some_iff.mp hp
      obtain ⟨between, hbetween⟩ :=
        (Text.trimStart_suffix (parametersEnd p.2)).trans (parametersEnd_suffix p.2)
      refine ⟨?_, ⟨between, by rw [hbetween]; exact hname⟩, hread⟩
      intro (hnil : p.1 = [])
      have hle := (unmarked_suffix after.trimStart).length_le
      rw [hnil, List.nil_append] at hname
      rw [hname] at hle hlt
      omega
    · exact absurd h (by simp)

theorem isPlaced_of_shown? {typed : Text} {p : NamedPart} (h : shown? typed = some (some p)) :
    p.IsPlaced ∧ p.text <:+ typed := by
  rw [shown?] at h
  split at h
  · exact absurd h (by simp)
  · obtain ⟨suffixed, htype, h⟩ := Option.bind_eq_some_iff.mp h
    split at h
    · exact absurd h (by simp)
    · next rest hrest =>
      rw [shownBehind?] at h
      split at h
      · split at h
        · exact absurd h (by simp)
        · exact absurd h (by simp)
      · next name rest' hname =>
        obtain ⟨boundary, hread, heq⟩ := Option.map_eq_some_iff.mp h
        obtain rfl := Option.some.inj heq
        refine ⟨isPlaced_of_named? htype hrest hname hread, ?_⟩
        have hsuffix := (afterSuffixes?_suffix hrest).trans (afterType?_suffix htype)
        dsimp only
        rw [namedText]
        split
        · exact List.suffix_refl typed
        · exact (Text.trimStart_suffix rest).trans hsuffix

end Head

/-! ## The places in the text -/

/-- A boundary is written at the start of a text. A field may end its name at a comma instead, and
an equals sign is no boundary if it starts an arrow. -/
def Boundary.StartsText (b : Boundary) (t : Text) : Prop :=
  (b.symbol.toList <+: t ∨ b = .terminator ∧ [','] <+: t) ∧
    (b = .initializer → ¬Boundary.arrow.symbol.toList <+: t)

private theorem Boundary.startsText_of_read? {t : Text} {b : Boundary}
    (h : read? t = some (some b)) : b.StartsText t := by
  rcases t with - | ⟨c, t⟩
  · exact absurd h (by simp [read?])
  · rw [read?_cons] at h
    split at h
    · next hc =>
      rw [hc]
      split at h
      · next harrow =>
        obtain ⟨t, rfl⟩ := List.head?_eq_some_iff.mp harrow
        rw [← Option.some.inj (Option.some.inj h)]
        exact ⟨.inl (List.prefix_append ['=', '>'] t), by simp⟩
      · next harrow =>
        rw [← Option.some.inj (Option.some.inj h)]
        refine ⟨.inl (List.prefix_append ['='] t), fun _ hprefix ↦ harrow ?_⟩
        obtain ⟨r, hr⟩ := hprefix
        rw [← (List.cons.inj hr).2]
        rfl
    · split at h
      · next hc =>
        rw [hc, ← Option.some.inj (Option.some.inj h)]
        exact ⟨.inl (List.prefix_append ['('] t), by simp⟩
      · split at h
        · next hc =>
          rw [hc, ← Option.some.inj (Option.some.inj h)]
          exact ⟨.inl (List.prefix_append ['\x7b'] t), by simp⟩
        · split at h
          · next hc =>
            rw [← Option.some.inj (Option.some.inj h)]
            refine ⟨?_, by simp⟩
            rcases hc with rfl | rfl
            · exact .inl (List.prefix_append [';'] t)
            · exact .inr ⟨rfl, List.prefix_append [','] t⟩
          · exact absurd h (by simp)

private theorem Boundary.read?_eq_some_none_iff {t : Text} : read? t = some none ↔ t = [] := by
  refine ⟨fun h ↦ ?_, fun h ↦ by rw [h]; rfl⟩
  rcases t with - | ⟨c, t⟩
  · rfl
  · rw [read?_cons] at h
    repeat' split at h
    all_goals exact absurd h (by simp)

namespace Head

/-- What a head says about its text holds of the text. -/
structure PointsInto (text : Text) (h : Head) : Prop where
  name_le : h.nameStart + h.name.length ≤ h.boundaryStart
  boundary_le : h.boundaryStart ≤ text.length
  name : (text.drop h.nameStart).take h.name.length = h.name
  /-- There is no boundary exactly if the text ends where it should stand. -/
  ended : h.boundary = none ↔ h.boundaryStart = text.length
  boundary : ∀ b, h.boundary = some b → b.StartsText (text.drop h.boundaryStart)
  /-- Whoever has found the boundary has found the name. -/
  unnamed : h.name = [] → h.boundary = none

private theorem pointsInto_incomplete (text : Text) : PointsInto text (incomplete text) where
  name_le := le_rfl
  boundary_le := le_rfl
  name := rfl
  ended := by simp [incomplete]
  boundary b hb := absurd hb (by simp [incomplete])
  unnamed _ := rfl

private theorem pointsInto_ofShown {text : Text} {p : NamedPart} (hplaced : p.IsPlaced)
    (hsuffix : p.text <:+ text) (hasModifiers : Bool) :
    PointsInto text (ofShown text hasModifiers (some p)) := by
  obtain ⟨front, rfl⟩ := hsuffix
  obtain ⟨between, hname⟩ := hplaced.name
  have hlength : p.text.length = p.name.length + (between.length + p.rest.length) := by
    rw [hname, List.length_append, List.length_append]
  have hnameStart : (front ++ p.text).length - p.text.length = front.length := by
    rw [List.length_append, Nat.add_sub_cancel]
  have hboundaryStart : (front ++ p.text).length - p.rest.length =
      front.length + (p.name.length + between.length) := by
    rw [List.length_append]
    omega
  have hdrop : (front ++ p.text).drop ((front ++ p.text).length - p.rest.length) = p.rest := by
    have hrest : p.rest <:+ p.text := ⟨p.name ++ between, by rw [hname, List.append_assoc]⟩
    exact Verdict.drop_of_suffix (hrest.trans (List.suffix_append front p.text))
  refine ⟨?_, ?_, ?_, ?_, fun b hb ↦ ?_, fun hnil ↦ absurd hnil hplaced.ne_nil⟩
  all_goals dsimp only [ofShown]
  · omega
  · omega
  · rw [hnameStart, List.drop_left, hname, List.take_left]
  · have hended : p.boundary = none ↔ p.rest = [] := by
      rw [← Boundary.read?_eq_some_none_iff, hplaced.boundary, Option.some.injEq]
    rw [hended, hboundaryStart, List.length_append, hlength, ← List.length_eq_zero_iff]
    omega
  · rw [hdrop]
    exact Boundary.startsText_of_read? (hplaced.boundary.trans (congrArg some hb))

theorem pointsInto_of_parse? {text : Text} {h : Head} (hparse : parse? text = some h) :
    h.PointsInto text := by
  rw [parse?_eq_shown?] at hparse
  obtain ⟨declared, hdeclared, hhead⟩ := Option.bind_eq_some_iff.mp hparse
  obtain ⟨shown, hshown, rfl⟩ := Option.map_eq_some_iff.mp hhead
  cases shown with
  | none => exact pointsInto_incomplete text
  | some p =>
    obtain ⟨hplaced, hsuffix⟩ := isPlaced_of_shown? hshown
    refine pointsInto_ofShown hplaced (hsuffix.trans ?_) _
    exact (Text.dropKeywords_suffix _ declared).trans
      ((afterAttributes?_suffix hdeclared).trans (Text.trimStart_suffix text))

end Head

end CSharpOutline
