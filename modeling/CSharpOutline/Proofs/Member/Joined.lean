import CSharpOutline.Member.Joined
import CSharpOutline.Proofs.Code.Inert
import Mathlib.Data.List.Induction

/-!
# Places in joined lines

Joining lines moves blanks about and drops comments, and nothing else. So a visible character of
the joined text stands in the lines at the place that has the same visible text in front of it,
comments left out (`StandsAt`), and there is only one such place (`StandsAt.eq`). `locate` finds it
(`locate_pushAll`): this is all that the segments of a joined text are good for.
-/

namespace CSharpOutline

namespace Text

/-- What a line says is followed by nothing or by a comment. -/
theorem exists_eq_withoutComment_append (t : Text) :
    ∃ w, t = t.withoutComment ++ w ∧ (w = [] ∨ ∃ r, w = '/' :: '/' :: r) := by
  have hlexer : ∀ (l : Lexer) (t : Text),
      ∃ w, t = l.beforeComment t ++ w ∧ (w = [] ∨ ∃ r, w = '/' :: '/' :: r) := by
    intro l t
    induction t generalizing l with
    | nil => exact ⟨[], rfl, .inl rfl⟩
    | cons c t ih =>
      rw [Lexer.beforeComment]
      split
      · next h =>
        obtain ⟨hslash, hhead⟩ := h
        obtain ⟨r, rfl⟩ := List.head?_eq_some_iff.mp hhead
        exact ⟨c :: '/' :: r, rfl, .inr ⟨r, by rw [Lexer.eq_of_mode_step hslash rfl]⟩⟩
      · obtain ⟨w, hw, hcomment⟩ := ih (l.step c)
        exact ⟨w, by rw [List.cons_append, ← hw], hcomment⟩
  exact hlexer {} t

theorem prefix_withoutComment (t : Text) : t.withoutComment <+: t := by
  obtain ⟨w, hw, -⟩ := exists_eq_withoutComment_append t
  exact ⟨w, hw.symm⟩

theorem exists_append_of_visible_le {p q u v : Text} {d : Char} (hd : isBlank d = false)
    (heq : p ++ q = u ++ d :: v) (hle : (visible p).length ≤ (visible u).length) :
    ∃ w, u = p ++ w ∧ q = w ++ d :: v := by
  rcases List.append_eq_append_iff.mp heq with ⟨w, hu, hq⟩ | ⟨w, hp, hw⟩
  · exact ⟨w, hu, hq⟩
  · cases w with
    | nil => exact ⟨[], by simpa using hp.symm, by simpa using hw.symm⟩
    | cons c w =>
      obtain ⟨rfl, -⟩ := List.cons.inj hw
      rw [hp, visible_append, visible_cons hd, List.length_append, List.length_cons] at hle
      omega

theorem eq_of_length_visible {p q u v : Text} {c d : Char} (hc : isBlank c = false)
    (hd : isBlank d = false) (heq : p ++ c :: q = u ++ d :: v)
    (hlength : (visible p).length = (visible u).length) : p = u := by
  obtain ⟨w, hw, -⟩ := exists_append_of_visible_le hd heq (Nat.le_of_eq hlength)
  obtain ⟨w', hw', -⟩ := exists_append_of_visible_le hc heq.symm (Nat.le_of_eq hlength.symm)
  have h₁ := congrArg List.length hw
  have h₂ := congrArg List.length hw'
  rw [List.length_append] at h₁ h₂
  obtain rfl : w = [] := List.length_eq_zero_iff.mp (by omega)
  rw [hw, List.append_nil]

end Text

open Text

namespace Joined

/-! ## The joined text -/

/-- What a line adds to a joined text. -/
def piece (line : Text) : Text := line.withoutComment.trim

/-- A joined text with one more line. -/
def joinLine (text line : Text) : Text :=
  if (piece line).isEmpty then text else text ++ separator text (piece line) ++ piece line

/-- A joined text with more lines. -/
def join (text : Text) (lines : List Text) : Text := lines.foldl joinLine text

/-- Joins lines, the first of them being line `number`. -/
def pushAll (j : Joined) (number : Nat) : List Text → Joined
  | [] => j
  | line :: lines => (j.push number line).pushAll (number + 1) lines

@[simp] theorem text_push (j : Joined) (number : Int) (line : Text) :
    (j.push number line).text = joinLine j.text line := by
  rw [push, addPiece, joinLine, piece]
  split <;> rfl

@[simp] theorem text_pushAll (j : Joined) (number : Nat) (lines : List Text) :
    (j.pushAll number lines).text = join j.text lines := by
  induction lines generalizing j number with
  | nil => rfl
  | cons line lines ih => rw [pushAll, ih, text_push]; rfl

theorem pushAll_concat (j : Joined) (number : Nat) (lines : List Text) (line : Text) :
    j.pushAll number (lines ++ [line]) =
      (j.pushAll number lines).push (number + lines.length : Nat) line := by
  induction lines generalizing j number with
  | nil => rfl
  | cons first lines ih =>
    rw [List.cons_append, pushAll, ih, pushAll, List.length_cons]
    congr 2
    omega

theorem join_concat (text : Text) (lines : List Text) (line : Text) :
    join text (lines ++ [line]) = joinLine (join text lines) line := by
  rw [join, List.foldl_append]
  rfl

theorem prefix_joinLine (t line : Text) : t <+: joinLine t line := by
  rw [joinLine]
  split
  · exact List.prefix_refl t
  · rw [List.append_assoc]
    exact List.prefix_append _ _

theorem prefix_join (t : Text) (lines : List Text) : t <+: join t lines := by
  induction lines generalizing t with
  | nil => exact List.prefix_refl t
  | cons line lines ih => exact (prefix_joinLine t line).trans (ih _)

theorem allBlank_separator (text line : Text) : (separator text line).allBlank = true := by
  rw [separator]
  split <;> decide

private theorem visible_joinLine (text line : Text) :
    visible (joinLine text line) = visible text ++ visible line.withoutComment := by
  rw [joinLine]
  split
  · next h =>
    have hnil : piece line = [] := by simpa using h
    rw [← visible_trim line.withoutComment, show trim line.withoutComment = [] from hnil,
      visible_nil, List.append_nil]
  · rw [visible_append, visible_append, visible_of_allBlank (allBlank_separator _ _),
      List.append_nil, piece, visible_trim]

theorem visible_join (text : Text) (lines : List Text) :
    visible (join text lines) = visible text ++ visible (lines.flatMap withoutComment) := by
  induction lines generalizing text with
  | nil => simp [join]
  | cons line lines ih =>
    rw [join, List.foldl_cons, ← join, ih, visible_joinLine, List.flatMap_cons, visible_append,
      List.append_assoc]

end Joined

/-! ## Places

A place is settled by how much is visible in front of it: of two places the one on the earlier line
has less, and on one line so has the one further left. -/

/-- The visible character `d` stands at a column of a line, and `shown` is the visible text of the
lines in front of it, comments left out. -/
def StandsAt (lines : List Text) (shown : Text) (d : Char) (line column : Nat) : Prop :=
  ∃ read u v w unread, lines = read ++ (u ++ d :: v ++ w) :: unread ∧
    withoutComment (u ++ d :: v ++ w) = u ++ d :: v ∧ isBlank d = false ∧
    read.length = line ∧ u.length = column ∧
    shown = visible (read.flatMap withoutComment) ++ visible u

namespace StandsAt

theorem append {lines : List Text} {shown : Text} {d : Char} {line column : Nat}
    (h : StandsAt lines shown d line column) (more : List Text) :
    StandsAt (lines ++ more) shown d line column := by
  obtain ⟨read, u, v, w, unread, rfl, h⟩ := h
  exact ⟨read, u, v, w, unread ++ more, by simp, h⟩

/-- Of two places in the same lines the one on the earlier line has less text in front of it. -/
theorem length_le_of_length_eq {read read' unread unread' : List Text} {t t' u u' : Text}
    (hlines : read ++ t :: unread = read' ++ t' :: unread')
    (hu : u.length < t.withoutComment.length)
    (hlength : (read.flatMap withoutComment ++ u).length =
      (read'.flatMap withoutComment ++ u').length) : read'.length ≤ read.length := by
  rw [← Nat.not_lt]
  intro hlt
  rcases List.append_eq_append_iff.mp hlines with ⟨m, hm, hrest⟩ | ⟨m, hm, -⟩
  · cases m with
    | nil =>
      rw [hm, List.append_nil] at hlt
      exact absurd hlt (Nat.lt_irrefl _)
    | cons s m =>
      obtain ⟨rfl, -⟩ := List.cons.inj hrest
      rw [hm] at hlength
      simp only [List.flatMap_append, List.flatMap_cons, List.length_append] at hlength
      omega
  · rw [hm, List.length_append] at hlt
    omega

theorem eq {lines : List Text} {shown : Text} {d d' : Char} {line column line' column' : Nat}
    (h : StandsAt lines shown d line column) (h' : StandsAt lines shown d' line' column') :
    line = line' ∧ column = column' := by
  obtain ⟨read, u, v, w, unread, rfl, hsaid, hd, rfl, rfl, rfl⟩ := h
  obtain ⟨read', u', v', w', unread', hlines, hsaid', hd', rfl, rfl, hshown⟩ := h'
  -- both places cut the text of all lines after the same number of characters
  have htext : (read.flatMap withoutComment ++ u) ++ d :: (v ++ unread.flatMap withoutComment) =
      (read'.flatMap withoutComment ++ u') ++ d' :: (v' ++ unread'.flatMap withoutComment) := by
    have hflat := congrArg (List.flatMap withoutComment) hlines
    rw [List.flatMap_append, List.flatMap_append, List.flatMap_cons, List.flatMap_cons, hsaid,
      hsaid'] at hflat
    simpa using hflat
  rw [← visible_append, ← visible_append] at hshown
  have hlength := congrArg List.length
    (eq_of_length_visible hd hd' htext (congrArg List.length hshown))
  have hle := length_le_of_length_eq hlines (u := u) (by rw [hsaid]; simp) hlength
  have hle' := length_le_of_length_eq hlines.symm (u := u') (by rw [hsaid']; simp) hlength.symm
  have hread : read.length = read'.length := Nat.le_antisymm hle' hle
  obtain ⟨rfl, -⟩ := List.append_inj hlines hread
  rw [List.length_append, List.length_append] at hlength
  exact ⟨rfl, by omega⟩

end StandsAt

/-! ## Finding places again

Segments start inside the text, in the order of the lines. The last one that starts no later than a
visible character belongs to its line. -/

namespace Joined

/-- A text that is not blank is its trimmed form behind its indentation. -/
theorem exists_eq_indent {t : Text} (h : trim t ≠ []) :
    ∃ b e : Text, t = b ++ trim t ++ e ∧ indent t = b.length ∧ visible b = [] := by
  obtain ⟨b, e, hb, -, htrimmed, ht⟩ := exists_eq_append_trim t
  refine ⟨b, e, ht, ?_, visible_of_allBlank hb⟩
  have hstart : trimStart t = trim t ++ e := by
    conv => lhs; rw [ht, List.append_assoc, trimStart_allBlank_append hb]
    refine trimStart_of_head fun c hc ↦ htrimmed.head c ?_
    rwa [List.head?_append_of_ne_nil _ h] at hc
  have hlength := congrArg List.length ht
  rw [indent, hstart]
  simp only [List.length_append] at hlength ⊢
  omega

theorem push_of_nil {line : Text} (h : piece line = []) (j : Joined) (number : Int) :
    j.push number line = j := by
  rw [push, addPiece, if_pos]
  simpa [piece] using h

theorem segments_push {line : Text} (h : piece line ≠ []) (j : Joined) (number : Int) :
    (j.push number line).segments =
      j.segments ++ [⟨(j.text ++ separator j.text (piece line)).length, number,
        indent line.withoutComment⟩] := by
  rw [push, addPiece, if_neg]
  · rfl
  · simpa [piece] using h

theorem joinLine_of_nil {line : Text} (h : piece line = []) (text : Text) :
    joinLine text line = text := by
  rw [joinLine, if_pos]
  simpa using h

theorem joinLine_of_ne_nil {line : Text} (h : piece line ≠ []) (text : Text) :
    joinLine text line = text ++ separator text (piece line) ++ piece line := by
  rw [joinLine, if_neg]
  simpa using h

private theorem standsAt_concat (lines : List Text) {line u v : Text} {d : Char}
    (hpiece : piece line = u ++ d :: v) (hd : isBlank d = false) :
    StandsAt (lines ++ [line]) (visible (lines.flatMap withoutComment) ++ visible u) d lines.length
      (indent line.withoutComment + u.length) := by
  have hne : trim line.withoutComment ≠ [] := by
    intro hnil
    rw [piece, hnil] at hpiece
    exact absurd hpiece (by simp)
  obtain ⟨b, e, hsaid, hindent, hb⟩ := exists_eq_indent hne
  obtain ⟨w, hw⟩ := prefix_withoutComment line
  rw [piece] at hpiece
  rw [hpiece] at hsaid
  have hsaid' : line.withoutComment = (b ++ u) ++ d :: (v ++ e) := by
    rw [hsaid]
    simp
  have hline : (b ++ u) ++ d :: (v ++ e) ++ w = line := by rw [← hsaid', hw]
  refine ⟨lines, b ++ u, v ++ e, w, [], ?_, ?_, hd, rfl, ?_, ?_⟩
  · rw [hline]
  · rw [hline, hsaid']
  · rw [List.length_append, hindent]
  · rw [visible_append, hb, List.nil_append]

/-- The segments of joined lines start inside the text, and a visible character of the text is found
again through the last segment that starts no later. -/
theorem segments_pushAll (start : Nat) (lines : List Text) :
    (∀ s ∈ (pushAll {} start lines).segments, s.start ≤ (join [] lines).length) ∧
    ∀ (p : Text) (d : Char) (q : Text), join [] lines = p ++ d :: q → isBlank d = false →
      ∃ (s : Segment) (line column : Nat),
        ((pushAll {} start lines).segments.takeWhile
          fun s ↦ decide ((s.start : Int) ≤ p.length)).getLast? = some s ∧
        s.line = start + line ∧ s.column + p.length = column + s.start ∧
        StandsAt lines (visible p) d line column := by
  -- lines are added at the end, where they change neither the text before nor its segments
  induction lines using List.reverseRecOn with
  | nil => exact ⟨by simp [pushAll], fun p d q h ↦ absurd h (by simp [join])⟩
  | append_singleton lines line ih =>
    obtain ⟨hstart, hplace⟩ := ih
    rw [pushAll_concat, join_concat]
    by_cases hpiece : piece line = []
    · rw [push_of_nil hpiece, joinLine_of_nil hpiece]
      refine ⟨hstart, fun p d q htext hd ↦ ?_⟩
      obtain ⟨s, l, c, hs, hline, hcolumn, hstands⟩ := hplace p d q htext hd
      exact ⟨s, l, c, hs, hline, hcolumn, hstands.append _⟩
    · rw [segments_push hpiece, joinLine_of_ne_nil hpiece, text_pushAll]
      constructor
      · intro s hs
        rcases List.mem_append.mp hs with hs | hs
        · have hle := hstart s hs
          simp only [List.length_append]
          omega
        · rw [List.mem_singleton.mp hs]
          simp only [List.length_append]
          omega
      · intro p d q htext hd
        by_cases hold : ∃ m, join [] lines = p ++ d :: m
        · -- the last segment starts behind the character
          obtain ⟨m, hm⟩ := hold
          obtain ⟨s, l, c, hs, hline, hcolumn, hstands⟩ := hplace p d m hm hd
          refine ⟨s, l, c, ?_, hline, hcolumn, hstands.append _⟩
          rw [List.takeWhile_append, ← hs]
          have hbehind : ¬((join [] lines ++ separator (join [] lines) (piece line)).length : Int) ≤
              p.length := by
            rw [hm]
            simp only [List.length_append, List.length_cons]
            omega
          rw [List.takeWhile_cons_of_neg (by simpa using hbehind), List.append_nil]
          split
          · next hall => rw [List.takeWhile_prefix _ |>.eq_of_length hall]
          · rfl
        · -- the character belongs to the last line, and every segment starts no later
          obtain ⟨m, rfl, hrest⟩ : ∃ m, p = join [] lines ++ m ∧
              separator (join [] lines) (piece line) ++ piece line = m ++ d :: q := by
            rw [List.append_assoc] at htext
            rcases List.append_eq_append_iff.mp htext with ⟨m, hp, hm⟩ | ⟨m, hp, hm⟩
            · exact ⟨m, hp, hm⟩
            · cases m with
              | nil => exact ⟨[], by simpa using hp.symm, by simpa using hm.symm⟩
              | cons c m =>
                obtain ⟨rfl, -⟩ := List.cons.inj hm
                exact absurd ⟨m, hp⟩ hold
          have hblank := visible_of_allBlank (allBlank_separator (join [] lines) (piece line))
          obtain ⟨u, rfl, hu⟩ := exists_append_of_visible_le hd hrest (by rw [hblank]; simp)
          generalize hsep : separator (join [] lines) (piece line) = sep at *
          have hall : ∀ s ∈ (pushAll {} start lines).segments,
              decide ((s.start : Int) ≤ (join [] lines ++ (sep ++ u)).length) = true := by
            intro s hs
            have hle := hstart s hs
            simp only [List.length_append, decide_eq_true_eq]
            omega
          refine ⟨⟨(join [] lines ++ sep).length, (start + lines.length : Nat),
            indent line.withoutComment⟩, lines.length, indent line.withoutComment + u.length,
            ?_, by push_cast; rfl, ?_, ?_⟩
          · rw [List.takeWhile_append_of_pos hall, List.takeWhile_cons_of_pos,
              List.getLast?_append_of_ne_nil _ (by simp)]
            · rfl
            · simp only [List.length_append, decide_eq_true_eq]
              omega
          · simp only [List.length_append]
            omega
          · have hshown : visible (join [] lines ++ (sep ++ u)) =
                visible (lines.flatMap withoutComment) ++ visible u := by
              rw [visible_append, visible_append, hblank, visible_join, visible_nil,
                List.nil_append, List.nil_append]
            rw [hshown]
            exact standsAt_concat lines hu hd

/-- A visible character of joined lines is found again in the lines. -/
theorem locate_pushAll (start : Nat) {lines : List Text} {p q : Text} {d : Char}
    (h : join [] lines = p ++ d :: q) (hd : isBlank d = false) :
    ∃ line column : Nat, (pushAll {} start lines).locate p.length = .ok (start + line, column) ∧
      StandsAt lines (visible p) d line column := by
  obtain ⟨s, line, column, hs, hline, hcolumn, hstands⟩ :=
    (segments_pushAll start lines).2 p d q h hd
  refine ⟨line, column, ?_, hstands⟩
  have hcast : (s.column : Int) + p.length - s.start = column := by omega
  rw [locate, segmentOf?, hs, Option.some_or]
  dsimp only
  rw [hline, hcast]

end Joined

end CSharpOutline
