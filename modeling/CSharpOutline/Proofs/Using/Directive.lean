import CSharpOutline.Proofs.Head.Reads
import CSharpOutline.Proofs.Head.Respace
import CSharpOutline.Using.Block

/-!
# Directives and their line endings

A directive is written without regard to how its line ends. What is read of it before the ending
holds no carriage return and no line feed (`exists_eq_append_of_isUsingLine`), and whether a line is
a directive does not depend on which ending it has (`isUsingLine_append`). So a directive stays one
when its ending is cut off and another is put in its place (`isUsingLine_withoutEnding`).

Both facts come from following the reader: every stage of it goes forward over characters that do
not end a line, and what is appended behind such characters is still there when the stage is done.
-/

namespace CSharpOutline.Text

def isLineEnd (c : Char) : Bool := c == '\r' || c == '\n'

theorem ne_of_isLineEnd {c d : Char} (hc : isLineEnd c = true) (hd : isLineEnd d = false) :
    c ≠ d := by
  rintro rfl
  rw [hc] at hd
  exact absurd hd (by decide)

/-- A class that holds no line end: it is enough to look at the two characters. -/
theorem eq_false_of_isLineEnd {p : Char → Bool} (hreturn : p '\r' = false) (hfeed : p '\n' = false)
    {c : Char} (hc : isLineEnd c = true) : p c = false := by
  simp only [isLineEnd, Bool.or_eq_true, beq_iff_eq] at hc
  rcases hc with rfl | rfl
  · exact hreturn
  · exact hfeed

theorem isLineEnd_eq_false {p : Char → Bool} (hreturn : p '\r' = false) (hfeed : p '\n' = false)
    {c : Char} (hc : p c = true) : isLineEnd c = false := by
  rw [← Bool.not_eq_true]
  intro hend
  rw [eq_false_of_isLineEnd hreturn hfeed hend] at hc
  exact absurd hc (by decide)

theorem isLineEnd_of_mem_directiveEndings {e : Text} (he : e ∈ directiveEndings) :
    ∀ c ∈ e, isLineEnd c = true := by
  have hall : ∀ e ∈ directiveEndings, e.all isLineEnd = true := by decide
  exact List.all_eq_true.mp (hall e he)

/-! ## Going forward within a line

Each stage of the reader advances within the line, so what it reads is read in front of anything. -/

/-- Reading `t` has come to `rest`, and nothing that was read ends a line. -/
def Advances (t rest : Text) : Prop :=
  ∃ front, t = front ++ rest ∧ ∀ c ∈ front, isLineEnd c = false

namespace Advances

theorem refl (t : Text) : Advances t t := ⟨[], rfl, by simp⟩

theorem trans {t r s : Text} (htr : Advances t r) (hrs : Advances r s) : Advances t s := by
  obtain ⟨f, rfl, hf⟩ := htr
  obtain ⟨g, rfl, hg⟩ := hrs
  refine ⟨f ++ g, (List.append_assoc f g s).symm, fun c hc ↦ ?_⟩
  rcases List.mem_append.mp hc with hc | hc
  · exact hf c hc
  · exact hg c hc

theorem cons {c : Char} (hc : isLineEnd c = false) (t : Text) : Advances (c :: t) t :=
  ⟨[c], rfl, by simpa using hc⟩

/-- A text that is read to its end within a line is read so in front of anything. -/
theorem append {t : Text} (h : Advances t []) (rest : Text) : Advances (t ++ rest) rest := by
  obtain ⟨f, rfl, hf⟩ := h
  exact ⟨f, by rw [List.append_nil], hf⟩

theorem of_all {p : Char → Bool} (hreturn : p '\r' = false) (hfeed : p '\n' = false) {t : Text}
    (h : t.all p = true) : Advances t [] :=
  ⟨t, by rw [List.append_nil], fun c hc ↦
    isLineEnd_eq_false hreturn hfeed (List.all_eq_true.mp h c hc)⟩

theorem forall_mem {t rest : Text} (h : Advances t rest) (ht : ∀ c ∈ t, isLineEnd c = false) :
    ∀ c ∈ rest, isLineEnd c = false := by
  obtain ⟨f, rfl, -⟩ := h
  exact fun c hc ↦ ht c (List.mem_append_right f hc)

theorem dropWhile {p : Char → Bool} (hreturn : p '\r' = false) (hfeed : p '\n' = false) (t : Text) :
    Advances t (t.dropWhile p) := by
  refine ⟨t.takeWhile p, List.takeWhile_append_dropWhile.symm, fun c hc ↦ ?_⟩
  exact isLineEnd_eq_false hreturn hfeed (List.mem_takeWhile_imp hc)

theorem expect? {word t rest : Text} (hword : word.any isLineEnd = false)
    (h : expect? word t = some rest) : Advances t rest := by
  refine ⟨word, expect?_eq_some_iff.mp h, fun c hc ↦ ?_⟩
  rw [List.any_eq_false] at hword
  simpa using hword c hc

theorem skipGaps? {t rest : Text} (h : skipGaps? t = some rest) : Advances t rest := by
  cases t with
  | nil => simp [Text.skipGaps?] at h
  | cons c t =>
    rw [Text.skipGaps?] at h
    split at h
    · next hc =>
      obtain rfl := Option.some.inj h
      exact (cons (isLineEnd_eq_false rfl rfl hc) t).trans (.dropWhile rfl rfl t)
    · simp at h

theorem name? {t name rest : Text} (h : name? isWord t = some (name, rest)) : Advances t rest := by
  obtain ⟨-, hrest, -⟩ := Head.name?_eq_some_iff.mp h
  have hmark : Advances t (Head.unmarked t) := by
    unfold Head.unmarked
    split
    · exact cons (by decide) _
    · exact refl t
  rw [← hrest]
  exact hmark.trans (.dropWhile (by decide) (by decide) _)

theorem afterUsing? {t rest : Text} (h : t.afterUsing? = some rest) : Advances t rest := by
  rw [Text.afterUsing?] at h
  refine (dropWhile (p := isGap) rfl rfl t).trans (.trans ?_ (.expect? (by decide) h))
  cases hglobal : (Text.expect? "global".toList (t.dropWhile isGap)).bind Text.skipGaps? with
  | none => exact refl _
  | some r =>
    obtain ⟨s, hs, hr⟩ := Option.bind_eq_some_iff.mp hglobal
    exact (expect? (by decide) hs).trans (.skipGaps? hr)

end Advances

/-! ## The body of a directive -/

private theorem isAliasName_advances {t : Text} (h : t.isAliasName = true) : Advances t [] := by
  rw [isAliasName] at h
  split at h
  · simp at h
  · next name rest hname => exact (Advances.name? hname).trans (.of_all rfl rfl h)

private theorem isAlias_advances {t : Text} (h : t.isAlias = true) : Advances t [] := by
  rw [isAlias] at h
  split at h
  · simp at h
  · next rest hrest =>
    refine (Advances.skipGaps? hrest).trans ?_
    rw [Bool.or_eq_true, Option.any_eq_true] at h
    rcases h with h | ⟨r, hr, h⟩
    · exact isAliasName_advances h
    · obtain ⟨s, hs, hr⟩ := Option.bind_eq_some_iff.mp hr
      exact (Advances.expect? (by decide) hs).trans
        ((Advances.skipGaps? hr).trans (isAliasName_advances h))

private theorem isTarget_advances {t : Text} (h : t.isTarget = true) : Advances t [] := by
  rw [isTarget, Bool.and_eq_true] at h
  exact .of_all (by decide) (by decide) h.2

theorem take_before (before : Text) (c : Char) (rest : Text) :
    (before ++ c :: rest).take ((before ++ c :: rest).length - rest.length - 1) = before := by
  have hlength : (before ++ c :: rest).length - rest.length - 1 = before.length := by
    simp only [List.length_append, List.length_cons]
    omega
  rw [hlength, List.take_left]

private theorem isUsingBody_advances {t : Text} (h : t.isUsingBody = true) : Advances t [] := by
  rw [isUsingBody] at h
  split at h
  · next target htarget =>
    obtain ⟨before, -, rfl⟩ := after?_eq_some_iff.mp htarget
    rw [take_before, Bool.and_eq_true] at h
    exact (isAlias_advances h.1).append _ |>.trans
      ((Advances.cons (by decide) target).trans (isTarget_advances h.2))
  · cases t with
    | nil => exact .refl []
    | cons c t =>
      rw [Bool.and_eq_true] at h
      have hc : isGap c = true := by simpa using h.1
      exact (Advances.cons (isLineEnd_eq_false rfl rfl hc) t).trans (isTarget_advances h.2)

/-- A directive is a text without a line end and one of the endings. -/
theorem exists_eq_append_of_isUsingLine {t : Text} (h : t.isUsingLine = true) :
    ∃ x e, t = x ++ e ∧ (∀ c ∈ x, isLineEnd c = false) ∧ e ∈ directiveEndings := by
  rw [isUsingLine] at h
  split at h
  · simp at h
  · next rest hrest =>
    split at h
    · simp at h
    · next tail htail =>
      obtain ⟨body, -, rfl⟩ := after?_eq_some_iff.mp htail
      rw [take_before, Bool.and_eq_true, List.contains_iff_mem] at h
      have hadvances : Advances t (tail.dropWhile isGap) :=
        (Advances.afterUsing? hrest).trans <| ((isUsingBody_advances h.1).append _).trans <|
          (Advances.cons (by decide) tail).trans (.dropWhile rfl rfl tail)
      obtain ⟨x, ht, hx⟩ := hadvances
      exact ⟨x, tail.dropWhile isGap, ht, hx, h.2⟩

/-! ## Exchanging the ending

A stage that has come to the end of the line leaves the ending, whichever it is. So a directive
stays one with another ending. -/

section

variable {e : Text} (he : ∀ c ∈ e, isLineEnd c = true)

include he

private theorem head?_eq_false_of_isLineEnd {p : Char → Bool} (hreturn : p '\r' = false)
    (hfeed : p '\n' = false) : e.head?.any p = false := by
  cases e with
  | nil => rfl
  | cons c e => exact eq_false_of_isLineEnd hreturn hfeed (he c List.mem_cons_self)

theorem dropWhile_append_ending {p : Char → Bool} (hreturn : p '\r' = false)
    (hfeed : p '\n' = false) (t : Text) : (t ++ e).dropWhile p = t.dropWhile p ++ e := by
  rw [List.dropWhile_append]
  split
  · next hnil =>
    rw [dropWhile_of_head (head?_eq_false_of_isLineEnd he hreturn hfeed),
      List.isEmpty_iff.mp hnil, List.nil_append]
  · rfl

private theorem expect?_append_ending {word : Text} (hword : word.any isLineEnd = false)
    (t : Text) : expect? word (t ++ e) = (expect? word t).map (· ++ e) := by
  induction word generalizing t with
  | nil => simp
  | cons w word ih =>
    rw [List.any_cons, Bool.or_eq_false_iff] at hword
    cases t with
    | nil =>
      cases e with
      | nil => rfl
      | cons c e =>
        have hc : c ≠ w := ne_of_isLineEnd (he c List.mem_cons_self) hword.1
        simp [expect?, hc]
    | cons c t =>
      rw [List.cons_append, expect?, expect?]
      split
      · exact ih hword.2 t
      · rfl

private theorem skipGaps?_append_ending (t : Text) :
    skipGaps? (t ++ e) = (skipGaps? t).map (· ++ e) := by
  cases t with
  | nil =>
    cases e with
    | nil => rfl
    | cons c e =>
      have hc : isGap c = false := eq_false_of_isLineEnd rfl rfl (he c List.mem_cons_self)
      simp [skipGaps?, hc]
  | cons c t =>
    rw [List.cons_append, skipGaps?, skipGaps?]
    split
    · rw [dropWhile_append_ending he rfl rfl, Option.map_some]
    · rfl

private theorem after?_append_ending {c : Char} (hc : isLineEnd c = false) (t : Text) :
    after? c (t ++ e) = (after? c t).map (· ++ e) := by
  cases h : after? c t with
  | some r => exact Text.after?_append h e
  | none =>
    rw [Text.after?_append_of_none h, Option.map_none, Option.eq_none_iff_forall_ne_some]
    intro r hr
    obtain ⟨before, -, rfl⟩ := after?_eq_some_iff.mp hr
    exact ne_of_isLineEnd (he c (by simp)) hc rfl

private theorem afterUsing?_append_ending (t : Text) :
    afterUsing? (t ++ e) = (afterUsing? t).map (· ++ e) := by
  rw [afterUsing?, afterUsing?, dropWhile_append_ending he rfl rfl,
    ← expect?_append_ending he (by decide)]
  congr 1
  rw [expect?_append_ending he (by decide)]
  cases expect? "global".toList (t.dropWhile isGap) with
  | none => rfl
  | some r =>
    rw [Option.map_some, Option.bind_some, Option.bind_some, skipGaps?_append_ending he]
    cases skipGaps? r with
    | none => rfl
    | some s => rfl

end

/-- A text without a line end that is followed by an ending is an ending only if it is empty. -/
theorem contains_directiveEndings_append {t e : Text} (ht : ∀ c ∈ t, isLineEnd c = false)
    (he : e ∈ directiveEndings) : directiveEndings.contains (t ++ e) = t.isEmpty := by
  cases t with
  | nil => simpa using he
  | cons c t =>
    rw [List.isEmpty_cons, ← Bool.not_eq_true, List.contains_iff_mem]
    intro hmem
    have hc := isLineEnd_of_mem_directiveEndings hmem c List.mem_cons_self
    rw [ht c List.mem_cons_self] at hc
    exact absurd hc (by decide)

/-- Whether a line is a directive does not depend on its ending. -/
theorem isUsingLine_append {t e : Text} (ht : ∀ c ∈ t, isLineEnd c = false)
    (he : e ∈ directiveEndings) : isUsingLine (t ++ e) = isUsingLine t := by
  have hends := isLineEnd_of_mem_directiveEndings he
  rw [isUsingLine, isUsingLine, afterUsing?_append_ending hends]
  cases hrest : t.afterUsing? with
  | none => rfl
  | some rest =>
    rw [Option.map_some]
    dsimp only
    rw [after?_append_ending hends (by decide)]
    cases htail : after? ';' rest with
    | none => rfl
    | some tail =>
      rw [Option.map_some]
      dsimp only
      have hbody : (rest ++ e).take ((rest ++ e).length - (tail ++ e).length - 1) =
          rest.take (rest.length - tail.length - 1) := by
        rw [List.length_append, List.length_append, Nat.add_sub_add_right,
          List.take_append_of_le_length (by omega)]
      have htail' : ∀ c ∈ tail.dropWhile isGap, isLineEnd c = false := by
        intro c hc
        have hrest' := (Advances.afterUsing? hrest).forall_mem ht
        obtain ⟨body, -, rfl⟩ := after?_eq_some_iff.mp htail
        have hmem := (List.dropWhile_suffix isGap).subset hc
        exact hrest' c (List.mem_append_right _ (List.mem_cons_of_mem _ hmem))
      have hnil := contains_directiveEndings_append htail' (e := []) (by decide)
      rw [List.append_nil] at hnil
      rw [hbody, dropWhile_append_ending hends rfl rfl, contains_directiveEndings_append htail' he,
        hnil]

private theorem withoutEnding_append {t e : Text} (ht : ∀ c ∈ t, isLineEnd c = false)
    (he : ∀ c ∈ e, isLineEnd c = true) : withoutEnding (t ++ e) = t := by
  have hlast : t.reverse.head?.any isLineEnd = false := by
    cases h : t.reverse.head? with
    | none => rfl
    | some c => exact ht c (List.mem_reverse.mp (List.mem_of_head? h))
  have hdrop : (t ++ e).reverse.dropWhile isLineEnd = t.reverse := by
    rw [List.reverse_append,
      List.dropWhile_append_of_pos fun c hc ↦ he c (List.mem_reverse.mp hc),
      dropWhile_of_head hlast]
  exact (congrArg List.reverse hdrop).trans (List.reverse_reverse t)

private theorem text_mem_directiveEndings (e : LineEnding) : e.text ∈ directiveEndings := by
  cases e <;> decide

/-- A directive without its ending has no line end, and is a directive with any other ending. -/
theorem isUsingLine_withoutEnding {s : Text} (h : s.isUsingLine = true) (e : LineEnding) :
    (∀ c ∈ withoutEnding s, isLineEnd c = false) ∧
      isUsingLine (withoutEnding s ++ e.text) = true := by
  obtain ⟨x, old, rfl, hx, hold⟩ := exists_eq_append_of_isUsingLine h
  rw [withoutEnding_append hx (isLineEnd_of_mem_directiveEndings hold)]
  rw [isUsingLine_append hx hold] at h
  exact ⟨hx, by rw [isUsingLine_append hx (text_mem_directiveEndings e), h]⟩

/-! ## Blank lines -/

private theorem expect?_of_allBlank {w : Char} (hw : isBlank w = false) (word : Text) {t : Text}
    (ht : t.allBlank = true) : expect? (w :: word) t = none := by
  rw [Option.eq_none_iff_forall_ne_some]
  intro rest hrest
  rw [expect?_eq_some_iff.mp hrest] at ht
  have hblank := allBlank_iff.mp ht w (by simp)
  rw [hw] at hblank
  exact absurd hblank (by decide)

/-- A blank line is no directive. -/
theorem isUsingLine_of_allBlank {t : Text} (ht : t.allBlank = true) : t.isUsingLine = false := by
  have hrest : allBlank (t.dropWhile isGap) = true := by
    rw [allBlank_iff] at ht ⊢
    exact fun c hc ↦ ht c ((List.dropWhile_suffix isGap).subset hc)
  have hglobal : expect? "global".toList (t.dropWhile isGap) = none :=
    expect?_of_allBlank (by decide) _ hrest
  have husing : expect? "using".toList (t.dropWhile isGap) = none :=
    expect?_of_allBlank (by decide) _ hrest
  rw [isUsingLine, afterUsing?, hglobal]
  simp only [Option.bind_none, Option.getD_none, husing]

end CSharpOutline.Text
