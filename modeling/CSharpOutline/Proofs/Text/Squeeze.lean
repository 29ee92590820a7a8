import CSharpOutline.Proofs.Text.Visible

/-!
# Squeezing blanks

Collapsing a text is trimming its start and then *squeezing* it: each run of blanks becomes a single
space, or nothing at the end of the text (`collapse_eq_squeeze`). In this form it goes through a
text from left to right and commutes with everything that looks at the text from its start and does
not tell blanks apart: trimming the start, skipping a class of visible characters, looking for a
visible character, and cutting the text into words.
-/

namespace CSharpOutline.Text

/-- The text with each run of blanks made a single space, and none at its end. -/
def squeeze : Text → Text
  | [] => []
  | c :: t =>
    if isBlank c then
      if t.head?.any (!isBlank ·) then ' ' :: squeeze t else squeeze t
    else c :: squeeze t

@[simp] theorem squeeze_nil : squeeze [] = [] := rfl

theorem squeeze_cons {c : Char} (hc : isBlank c = false) (t : Text) :
    squeeze (c :: t) = c :: squeeze t := by
  rw [squeeze, if_neg (by rw [hc]; decide)]

theorem squeeze_blank_visible {c d : Char} (hc : isBlank c = true) (hd : isBlank d = false)
    (t : Text) : squeeze (c :: d :: t) = ' ' :: d :: squeeze t := by
  rw [squeeze, if_pos hc, if_pos (by simp [hd]), squeeze_cons hd]

theorem squeeze_blank_blank {c d : Char} (hc : isBlank c = true) (hd : isBlank d = true)
    (t : Text) : squeeze (c :: d :: t) = squeeze (d :: t) := by
  rw [squeeze, if_pos hc, if_neg (by simp [hd])]

theorem squeeze_of_allBlank {t : Text} (h : t.allBlank = true) : squeeze t = [] := by
  induction t with
  | nil => rfl
  | cons c t ih =>
    rw [allBlank_cons, Bool.and_eq_true] at h
    cases t with
    | nil => rw [squeeze, if_pos h.1]; rfl
    | cons d t =>
      rw [squeeze_blank_blank h.1 (by simp_all)]
      exact ih h.2

theorem squeeze_blank_nil {c : Char} (hc : isBlank c = true) {t : Text} (ht : trimStart t = []) :
    squeeze (c :: t) = [] := by
  refine squeeze_of_allBlank ?_
  rw [allBlank_cons, hc, trimStart_eq_nil_iff.mp ht]
  rfl

/-- Blanks at the start of a text that goes on are made a space. -/
theorem squeeze_blank_cons {c : Char} (hc : isBlank c = true) {t : Text} (ht : trimStart t ≠ []) :
    squeeze (c :: t) = ' ' :: squeeze (trimStart t) := by
  induction t generalizing c with
  | nil => exact absurd rfl ht
  | cons d t ih =>
    by_cases hd : isBlank d = true
    · rw [trimStart_cons_of_isBlank hd] at ht ⊢
      rw [squeeze_blank_blank hc hd, ih hd ht]
    · have hd : isBlank d = false := by simpa using hd
      rw [squeeze_blank_visible hc hd, trimStart_cons hd, squeeze_cons hd]

theorem squeeze_eq_nil_iff {t : Text} : squeeze t = [] ↔ t.allBlank = true := by
  refine ⟨fun h ↦ ?_, squeeze_of_allBlank⟩
  cases t with
  | nil => rfl
  | cons c t =>
    by_cases hc : isBlank c = true
    · by_cases ht : trimStart t = []
      · rw [allBlank_cons, hc, trimStart_eq_nil_iff.mp ht]
        rfl
      · rw [squeeze_blank_cons hc ht] at h
        exact absurd h (by simp)
    · rw [squeeze_cons (by simpa using hc)] at h
      exact absurd h (by simp)

/-! ## Looking at the start

Squeezing keeps the first character, up to which blank it is, and goes through two texts in a row
one after the other if no run of blanks is cut in two. -/

theorem head?_squeeze {t : Text} {d : Char} (hd : isBlank d = false) :
    (squeeze t).head? = some d ↔ t.head? = some d := by
  cases t with
  | nil => rfl
  | cons c t =>
    by_cases hc : isBlank c = true
    · have hne : c ≠ d := by
        rintro rfl
        simp [hc] at hd
      have hspace : ' ' ≠ d := by
        rintro rfl
        exact absurd hd (by decide)
      by_cases ht : trimStart t = []
      · rw [squeeze_blank_nil hc ht]
        simp [hne]
      · rw [squeeze_blank_cons hc ht]
        simp [hne, hspace]
    · rw [squeeze_cons (by simpa using hc)]
      rfl

theorem head?_squeeze_blank {t : Text} (ht : trimStart t ≠ []) :
    (squeeze t).head?.any isBlank = t.head?.any isBlank := by
  cases t with
  | nil => rfl
  | cons c t =>
    by_cases hc : isBlank c = true
    · rw [trimStart_cons_of_isBlank hc] at ht
      rw [squeeze_blank_cons hc ht]
      simp [hc]
      decide
    · rw [squeeze_cons (by simpa using hc)]
      rfl

theorem trimStart_squeeze (t : Text) : trimStart (squeeze t) = squeeze (trimStart t) := by
  cases t with
  | nil => rfl
  | cons c t =>
    by_cases hc : isBlank c = true
    · rw [trimStart_cons_of_isBlank hc]
      by_cases ht : trimStart t = []
      · rw [ht, squeeze_blank_nil hc ht]
        rfl
      · obtain ⟨d, r, hdr⟩ := List.exists_cons_of_ne_nil ht
        have hd : isBlank d = false := head?_trimStart (by rw [hdr]; rfl)
        rw [squeeze_blank_cons hc ht, hdr, squeeze_cons hd, trimStart,
          List.dropWhile_cons_of_pos (by decide), List.dropWhile_cons_of_neg (by simp [hd])]
    · have hc : isBlank c = false := by simpa using hc
      rw [squeeze_cons hc, trimStart_cons hc, trimStart_cons hc, squeeze_cons hc]

/-- Two texts in a row are squeezed one after the other, if no run of blanks is cut in two. -/
theorem squeeze_append {s : Text} (hs : ∀ c, s.getLast? = some c → isBlank c = false) (t : Text) :
    squeeze (s ++ t) = squeeze s ++ squeeze t := by
  induction s with
  | nil => rfl
  | cons c s ih =>
    by_cases hnil : s = []
    · subst hnil
      have hc : isBlank c = false := hs c rfl
      rw [List.singleton_append, squeeze_cons hc, squeeze_cons hc]
      rfl
    · obtain ⟨d, r, rfl⟩ := List.exists_cons_of_ne_nil hnil
      have ih := ih fun e he ↦ hs e (by rw [List.getLast?_cons_cons, he])
      rw [List.cons_append] at ih
      rw [List.cons_append, List.cons_append]
      by_cases hc : isBlank c = true
      · by_cases hd : isBlank d = true
        · rw [squeeze_blank_blank hc hd, squeeze_blank_blank hc hd, ih]
        · have hd : isBlank d = false := by simpa using hd
          rw [squeeze_cons hd, squeeze_cons hd] at ih
          rw [squeeze_blank_visible hc hd, squeeze_blank_visible hc hd, List.cons_append, ih]
      · have hc : isBlank c = false := by simpa using hc
        rw [squeeze_cons hc, squeeze_cons hc, ih]
        rfl

theorem squeeze_eq_self {t : Text} (h : ∀ c ∈ t, isBlank c = false) : squeeze t = t := by
  induction t with
  | nil => rfl
  | cons c t ih =>
    rw [squeeze_cons (h c List.mem_cons_self), ih fun d hd ↦ h d (List.mem_cons_of_mem _ hd)]

theorem after?_squeeze {c : Char} (hc : isBlank c = false) (t : Text) :
    after? c (squeeze t) = (after? c t).map squeeze := by
  induction t with
  | nil => rfl
  | cons d t ih =>
    by_cases hd : isBlank d = true
    · have hne : ¬d = c := by
        rintro rfl
        simp [hd] at hc
      rw [squeeze, if_pos hd, after?, if_neg hne, ← ih]
      split
      · rw [after?, if_neg]
        rintro rfl
        exact absurd hc (by decide)
      · rfl
    · rw [squeeze_cons (by simpa using hd), after?, after?, ih]
      split <;> rfl

/-! ## Classes of visible characters

What a class of visible characters takes at the start of a text is not changed by squeezing, and
what it leaves is squeezed. -/

section

variable {p : Char → Bool} (hp : ∀ c, isBlank c = true → p c = false)

include hp

theorem head?_any_squeeze (t : Text) : (squeeze t).head?.any p = t.head?.any p := by
  cases t with
  | nil => rfl
  | cons c t =>
    by_cases hc : isBlank c = true
    · by_cases ht : trimStart t = []
      · rw [squeeze_blank_nil hc ht]
        simp [hp c hc]
      · rw [squeeze_blank_cons hc ht]
        simp [hp c hc, hp ' ' (by decide)]
    · rw [squeeze_cons (by simpa using hc)]
      rfl

theorem isBlank_of_class {c : Char} (h : p c = true) : isBlank c = false := by
  rw [← Bool.not_eq_true]
  intro hc
  rw [hp c hc] at h
  exact absurd h (by decide)

theorem takeWhile_squeeze (t : Text) : (squeeze t).takeWhile p = t.takeWhile p := by
  induction t with
  | nil => rfl
  | cons c t ih =>
    by_cases hc : p c = true
    · rw [squeeze_cons (isBlank_of_class hp hc), List.takeWhile_cons_of_pos hc,
        List.takeWhile_cons_of_pos hc, ih]
    · have hhead := head?_any_squeeze hp (c :: t)
      rw [List.takeWhile_cons_of_neg hc]
      cases hs : squeeze (c :: t) with
      | nil => rfl
      | cons d s =>
        rw [hs] at hhead
        exact List.takeWhile_cons_of_neg (by simpa [hc] using hhead)

theorem dropWhile_squeeze (t : Text) : (squeeze t).dropWhile p = squeeze (t.dropWhile p) := by
  induction t with
  | nil => rfl
  | cons c t ih =>
    by_cases hc : p c = true
    · rw [squeeze_cons (isBlank_of_class hp hc), List.dropWhile_cons_of_pos hc,
        List.dropWhile_cons_of_pos hc, ih]
    · rw [List.dropWhile_cons_of_neg hc, dropWhile_of_head]
      rw [head?_any_squeeze hp]
      simpa using hc

/-- Blanks only separate the runs of a class of visible characters. -/
theorem runs_squeeze (t : Text) : (squeeze t).runs p = t.runs p := by
  induction t with
  | nil => rfl
  | cons c t ih =>
    by_cases hc : isBlank c = true
    · rw [squeeze, if_pos hc, runs_cons_of_neg (hp c hc), ← ih]
      split
      · rw [runs_cons_of_neg (hp ' ' (by decide))]
      · rfl
    · rw [squeeze_cons (by simpa using hc), runs, runs, head?_any_squeeze hp, ih]

end

/-! ## Collapsing -/

theorem collapse_cons_of_isBlank {c : Char} (hc : isBlank c = true) (t : Text) :
    collapse (c :: t) = collapse t := by
  rw [collapse, fields, runs_cons_of_neg (by rw [hc]; rfl), collapse, fields]

theorem collapse_cons_cons {c d : Char} (hc : isBlank c = false) (hd : isBlank d = false)
    (t : Text) : collapse (c :: d :: t) = c :: collapse (d :: t) := by
  have hne : fields (d :: t) ≠ [] := runs_ne_nil (by simp [hd])
  obtain ⟨f, fs, hf⟩ := List.exists_cons_of_ne_nil hne
  have hfields : fields (c :: d :: t) = (c :: f) :: fs := by
    rw [fields, runs, if_pos (by simp [hc]), if_pos (by simp [hd]), ← fields, hf]
    rfl
  rw [collapse, hfields, collapse, hf]
  cases fs with
  | nil => rfl
  | cons g fs => simp [List.intercalate_cons_cons]

theorem collapse_cons_blank {c d : Char} (hc : isBlank c = false) (hd : isBlank d = true)
    (t : Text) :
    collapse (c :: d :: t) = if collapse (d :: t) = [] then [c] else c :: ' ' :: collapse (d :: t)
    := by
  have hfields : fields (c :: d :: t) = [c] :: fields (d :: t) := by
    rw [fields, runs, if_pos (by simp [hc]), if_neg (by simp [hd]), fields]
  rw [collapse, hfields, collapse]
  cases hf : fields (d :: t) with
  | nil => rfl
  | cons f fs =>
    have hne : f ≠ [] := (mem_fields (t := d :: t) (by rw [hf]; exact List.mem_cons_self)).1
    rw [if_neg (intercalate_ne_nil hne), List.intercalate_cons_cons]
    rfl

/-- Collapsing is trimming the start and squeezing what is left. -/
theorem collapse_eq_squeeze (t : Text) : collapse t = squeeze (trimStart t) := by
  induction t with
  | nil => rfl
  | cons c t ih =>
    by_cases hc : isBlank c = true
    · rw [collapse_cons_of_isBlank hc, trimStart_cons_of_isBlank hc, ih]
    · have hc : isBlank c = false := by simpa using hc
      rw [trimStart_cons hc, squeeze_cons hc]
      cases t with
      | nil => simp [collapse, fields, runs, hc]
      | cons d t =>
        by_cases hd : isBlank d = true
        · rw [trimStart_cons_of_isBlank hd] at ih
          rw [collapse_cons_blank hc hd, ih]
          by_cases ht : trimStart t = []
          · rw [squeeze_blank_nil hd ht, ht, squeeze_nil, if_pos rfl]
          · obtain ⟨e, r, her⟩ := List.exists_cons_of_ne_nil ht
            have he : isBlank e = false := head?_trimStart (t := t) (by rw [her]; rfl)
            rw [squeeze_blank_cons hd ht, if_neg]
            rw [her, squeeze_cons he]
            simp
        · have hd : isBlank d = false := by simpa using hd
          rw [collapse_cons_cons hc hd, ih, trimStart_cons hd]

end CSharpOutline.Text
