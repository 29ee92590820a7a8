import CSharpOutline.Proofs.Code.Passing

/-!
# Splitting at outermost separators

The pieces of a text, joined by the separator, give back the text. That holds of any separator,
since what is cut out is the separator itself (`Balance.intercalate_pieces`).

The other direction needs the cut to be a fresh start, because the pieces of a list are read one
after the other while a piece on its own is read from the beginning. An outermost comma is such a
start: it stands in code outside every group, so it leaves no depth and no mark behind, and on a
single line there is no backslash left over from a literal either (`Balance.step_comma`). So the
pieces of a line cannot be split further (`Balance.exists_pieces`), and pieces that cannot be split
and end outside every group, literal and comment are found again in the list that they make up
(`Text.splitOutermost_inverse`).
-/

namespace CSharpOutline

/-- Whether a literal or comment is being read. A verbatim string is over behind the quote that may
end it. -/
def Mode.isOpen : Mode → Bool
  | .code _ | .verbatimQuote => false
  | .lineComment | .blockComment _ | .literal _ | .verbatim => true

namespace Lexer

private theorem isCode_of_isOpen {l : Lexer} (h : l.mode.isOpen = false) {c : Char}
    (hc : isInert c = true) : l.isCode c = true := by
  rw [isCode_of_isInert hc]
  match hm : l.mode with
  | .code _ | .verbatimQuote => rfl
  | .lineComment | .blockComment _ | .literal _ | .verbatim => simp [hm, Mode.isOpen] at h

end Lexer

namespace Balance

/-! ## Pieces of any separator -/

theorem pieces_ne_nil (separator : Text) (b : Balance) (t : Text) : b.pieces separator t ≠ [] := by
  induction t generalizing b with
  | nil => simp [pieces]
  | cons c t ih =>
    rw [pieces]
    split
    · exact List.cons_ne_nil _ _
    · simpa using ih (b.step c)

private theorem intercalate_modifyHead (separator : Text) (c : Char) {pieces : List Text}
    (hne : pieces ≠ []) :
    separator.intercalate (pieces.modifyHead (c :: ·)) = c :: separator.intercalate pieces := by
  obtain ⟨p, ps, rfl⟩ := List.exists_cons_of_ne_nil hne
  rw [List.modifyHead_cons]
  rcases ps with - | ⟨q, ps⟩
  · rw [List.intercalate_singleton, List.intercalate_singleton]
  · rw [List.intercalate_cons_cons, List.intercalate_cons_cons]
    rfl

theorem intercalate_pieces (separator : Text) (b : Balance) (t : Text) :
    separator.intercalate (b.pieces separator t) = t := by
  induction t generalizing b with
  | nil => exact List.intercalate_singleton
  | cons c t ih =>
    rw [pieces]
    split
    · next hcut =>
      rw [Bool.and_eq_true, beq_iff_eq] at hcut
      rw [List.intercalate_cons_of_ne_nil (pieces_ne_nil _ _ _), ih, hcut.2]
      rfl
    · rw [intercalate_modifyHead _ _ (pieces_ne_nil _ _ _), ih]

private theorem pieces_append {separator : Text} {b : Balance} {p : Text}
    (h : b.pieces separator p = [p]) (t : Text) :
    b.pieces separator (p ++ t) = ((b.run p).pieces separator t).modifyHead (p ++ ·) := by
  induction p generalizing b with
  | nil => exact (congrFun List.modifyHead_id _).symm
  | cons c p ih =>
    rw [pieces] at h
    rw [List.cons_append, pieces]
    split at h
    · exact absurd (List.cons.inj h).1 (List.cons_ne_nil c p).symm
    · next hcut =>
      obtain ⟨q, qs, hq⟩ := List.exists_cons_of_ne_nil (pieces_ne_nil separator (b.step c) p)
      rw [hq, List.modifyHead_cons] at h
      obtain ⟨heq, rfl⟩ := List.cons.inj h
      obtain rfl : q = p := (List.cons.inj heq).2
      rw [if_neg hcut, ih hq, run_cons, List.modifyHead_modifyHead]
      rfl

/-! ## Commas

An outermost comma stands in code outside every group and leaves nothing to remember, so the pieces
behind it are those of a fresh start. -/

theorem escapesInLiteral_fresh : fresh.lexer.EscapesInLiteral := fun h ↦ by simp [fresh] at h

/-- **Reading starts over behind an outermost comma.** -/
theorem step_comma {b : Balance} (hescapes : b.lexer.EscapesInLiteral)
    (hcounts : b.countsAngles = true) (h : b.isOutermost ',' = true) : b.step ',' = fresh := by
  rw [isOutermost, Bool.and_eq_true, atTop, beq_iff_eq] at h
  obtain ⟨htop, hcode⟩ := h
  have hinert : Lexer.isInert ',' = true := rfl
  obtain ⟨hmode, hescaping⟩ := Lexer.mode_step_of_isCode hinert hcode
  apply eq_fresh
  · -- a literal would have swallowed the comma, so no escape is pending
    have hfalse : b.lexer.escaping = false := by
      by_contra htrue
      obtain ⟨q, hq⟩ := hescapes (by simpa using htrue)
      rw [isCode, Lexer.isCode_of_isInert hinert, hq] at hcode
      exact absurd hcode (by simp [Mode.trail?])
    rw [step_lexer, ← hmode, ← hescaping.trans hfalse]
  · rw [depths_step_of_isUncounted rfl]
    exact b.depths.total_eq_zero_iff.mp htop
  · exact hcounts

/-- **The pieces of a line cannot be split further.** The first of them is read by the balance at
hand, the others by a fresh one. -/
theorem exists_pieces {b : Balance} (hescapes : b.lexer.EscapesInLiteral)
    (hcounts : b.countsAngles = true) {t : Text} (ht : '\n' ∉ t) :
    ∃ p ps, b.pieces [','] t = p :: ps ∧ b.pieces [','] p = [p] ∧
      ∀ q ∈ ps, q.splitOutermost [','] = [q] := by
  induction t generalizing b with
  | nil => exact ⟨[], [], rfl, rfl, by simp⟩
  | cons c t ih =>
    rw [List.mem_cons, not_or] at ht
    by_cases hcut : (b.isOutermost c && [','] == [c]) = true
    · have hsplit := hcut
      rw [Bool.and_eq_true, beq_iff_eq] at hcut
      obtain rfl : ',' = c := (List.cons.inj hcut.2).1
      have hfresh := step_comma hescapes hcounts hcut.1
      obtain ⟨p, ps, hpieces, hp, hps⟩ := ih escapesInLiteral_fresh rfl ht.2
      refine ⟨[], p :: ps, ?_, rfl, ?_⟩
      · rw [pieces, if_pos hsplit, hfresh, hpieces]
      · rw [List.forall_mem_cons]
        exact ⟨hp, hps⟩
    · obtain ⟨p, ps, hpieces, hp, hps⟩ :=
        ih (b := b.step c) (hescapes.step (Ne.symm ht.1)) hcounts ht.2
      refine ⟨c :: p, ps, ?_, ?_, hps⟩
      · rw [pieces, if_neg hcut, hpieces, List.modifyHead_cons]
      · rw [pieces, if_neg hcut, hp, List.modifyHead_cons]

end Balance

namespace Text

open Balance

/-- A text that may stand between commas: a line that leaves a fresh balance outside every group,
literal and comment, and is not split itself. -/
structure IsPiece (p : Text) : Prop where
  unbroken : '\n' ∉ p
  total_eq : (fresh.run p).depths.total = 0
  isOpen_eq : (fresh.run p).lexer.mode.isOpen = false
  whole : p.splitOutermost [','] = [p]

instance : DecidablePred IsPiece := fun p ↦
  decidable_of_iff ('\n' ∉ p ∧ (fresh.run p).depths.total = 0 ∧
      (fresh.run p).lexer.mode.isOpen = false ∧ p.splitOutermost [','] = [p])
    ⟨fun h ↦ ⟨h.1, h.2.1, h.2.2.1, h.2.2.2⟩,
      fun h ↦ ⟨h.unbroken, h.total_eq, h.isOpen_eq, h.whole⟩⟩

private theorem IsPiece.splitOutermost_append {p : Text} (h : p.IsPiece) (t : Text) :
    (p ++ ',' :: t).splitOutermost [','] = p :: t.splitOutermost [','] := by
  have hescapes : (fresh.run p).lexer.EscapesInLiteral := by
    rw [run_lexer]
    exact escapesInLiteral_fresh.run h.unbroken
  have hcounts : (fresh.run p).countsAngles = true := run_countsAngles fresh p
  have hcomma : (fresh.run p).isOutermost ',' = true := by
    rw [isOutermost, atTop, h.total_eq]
    exact Lexer.isCode_of_isOpen h.isOpen_eq rfl
  rw [splitOutermost, pieces_append h.whole, pieces, if_pos (by rw [hcomma]; rfl),
    step_comma hescapes hcounts hcomma, List.modifyHead_cons, List.append_nil]
  rfl

private theorem splitOutermost_intercalate {pieces : List Text} (hne : pieces ≠ [])
    (h : ∀ p ∈ pieces, p.IsPiece) : splitOutermost ([','].intercalate pieces) [','] = pieces := by
  induction pieces with
  | nil => exact absurd rfl hne
  | cons p ps ih =>
    rw [List.forall_mem_cons] at h
    rcases ps with - | ⟨q, ps⟩
    · rw [List.intercalate_singleton, h.1.whole]
    · have hcons : [','].intercalate (p :: q :: ps) = p ++ ',' :: [','].intercalate (q :: ps) := by
        rw [List.intercalate_cons_cons, List.append_assoc]
        rfl
      rw [hcons, h.1.splitOutermost_append, ih (List.cons_ne_nil q ps) h.2]

/-- Splitting and joining are inverse to each other. What is split at any separator is joined again
to the text that it was; the pieces of a line between its outermost commas are not split further;
and pieces of this kind that are joined with commas are found again. -/
theorem splitOutermost_inverse :
    (∀ t separator : Text, separator.intercalate (t.splitOutermost separator) = t) ∧
    (∀ t : Text, '\n' ∉ t → ∀ p ∈ t.splitOutermost [','], p.splitOutermost [','] = [p]) ∧
    ∀ pieces : List Text, pieces ≠ [] → (∀ p ∈ pieces, p.IsPiece) →
      splitOutermost ([','].intercalate pieces) [','] = pieces := by
  refine ⟨fun t separator ↦ intercalate_pieces separator fresh t, ?_,
    fun pieces ↦ splitOutermost_intercalate⟩
  intro t ht q hq
  obtain ⟨p, ps, hpieces, hp, hps⟩ := exists_pieces escapesInLiteral_fresh rfl ht
  rw [splitOutermost, hpieces] at hq
  rcases List.mem_cons.mp hq with rfl | hq
  · exact hp
  · exact hps q hq

/-- A closer without an opener, a verbatim string that ends in a doubled quote and its own, and a
call with an arrow and a comment. -/
def oddPieces : List Text :=
  [")>a/", "@\"x,\"\"\"", " f<(y => y, '(')>/* , */$"].map String.toList

theorem splitOutermost_inverse_oddPieces :
    oddPieces ≠ [] ∧ (∀ p ∈ oddPieces, p.IsPiece) ∧
      [','].intercalate oddPieces = ")>a/,@\"x,\"\"\", f<(y => y, '(')>/* , */$".toList ∧
      splitOutermost ")>a/,@\"x,\"\"\", f<(y => y, '(')>/* , */$".toList [','] = oddPieces := by
  have hne : oddPieces ≠ [] := by simp [oddPieces]
  have hpieces : ∀ p ∈ oddPieces, p.IsPiece := by decide
  have hjoined : [','].intercalate oddPieces =
      ")>a/,@\"x,\"\"\", f<(y => y, '(')>/* , */$".toList := by decide
  refine ⟨hne, hpieces, hjoined, ?_⟩
  rw [← hjoined]
  exact splitOutermost_inverse.2.2 oddPieces hne hpieces

end Text

end CSharpOutline
